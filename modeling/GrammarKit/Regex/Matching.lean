import GrammarKit.Regex.Basic

/-!
# Matching

What a regular expression matches at the front of a byte sequence. Of several matches, the search
prefers the one that comes first when all choices are tried in order, a greedy repetition trying to
go on before it stops.

* `Regex.Matches`: what is left behind a match.
* `Regex.search`: the match that comes first among those from which the search can go on.
* `Regex.first?`: the match that comes first.
-/

namespace GrammarKit.Regex

open Text

/-- What is left of a byte sequence behind a class. -/
def CharClass.rest? : CharClass → List UInt8 → Option (List UInt8)
  | bytes _, [] => none
  | bytes set, b :: s => if set.has b.toNat then some s else none
  | chars set, s =>
    match decodeChar? s with
    | some (c, s) => if set.has c.toNat then some s else none
    | none => none

/-! ## Matches -/

/-- A relation `n` times in a row. -/
def Several {α : Type} (step : α → α → Prop) : (n : Nat) → α → α → Prop
  | 0, s, t => t = s
  | n + 1, s, t => ∃ u, step s u ∧ Several step n u t

section Matches

-- Where an anchor holds depends on all of the text, so it is left open.
variable (holds : Anchor → List UInt8 → Bool)

mutual

/-- **The expression matches the front of `s`** and leaves `t`. -/
def Matches : Regex → List UInt8 → List UInt8 → Prop
  | .empty, s, t => t = s
  | .literal bytes, s, t => s = bytes ++ t
  | .charClass c, s, t => c.rest? s = some t
  | .look a, s, t => holds a s = true ∧ t = s
  | .repetition body least most _, s, t =>
    ∃ n, least ≤ n ∧ (∀ m, most = some m → n ≤ m) ∧ Several (Matches body) n s t
  | .capture _ body, s, t => Matches body s t
  | .concat parts, s, t => MatchesSeq parts s t
  | .alternation branches, s, t => MatchesAny branches s t

/-- The expressions match one after the other. -/
def MatchesSeq : List Regex → List UInt8 → List UInt8 → Prop
  | [], s, t => t = s
  | r :: rs, s, t => ∃ u, Matches r s u ∧ MatchesSeq rs u t

/-- One of the expressions matches. -/
def MatchesAny : List Regex → List UInt8 → List UInt8 → Prop
  | [], _, _ => False
  | r :: rs, s, t => Matches r s t ∨ MatchesAny rs s t

end

end Matches

/-! ## Search -/

/-- A search: what is left where it ends, if it ends well. -/
abbrev Search := List UInt8 → Option (List UInt8)

namespace Search

/-- Goes on or stops; a greedy search tries to go on first. -/
def moreOr (greedy : Bool) (more stop : Search) : Search := fun s =>
  if greedy then (more s).or (stop s) else (stop s).or (more s)

variable (step : Search → Search) (greedy : Bool) (k : Search)

/-- A step `n` times in front of `k`. -/
def exactly : (n : Nat) → Search
  | 0 => k
  | n + 1 => step (exactly n)

/-- A step at most `n` times in front of `k`. -/
def atMost : (n : Nat) → Search
  | 0 => k
  | n + 1 => moreOr greedy (step (atMost n)) k

/-- A step any number of times in front of `k`. A time that takes nothing is the last one, so `n`
times suffice for `n` bytes. -/
def anyNumber : (n : Nat) → Search
  | 0 => k
  | n + 1 => fun s =>
    moreOr greedy (step fun t => if t.length < s.length then anyNumber n t else k t) k s

end Search

section Search

variable (holds : Anchor → List UInt8 → Bool)

mutual

/-- **The search for a match** from which `k` goes on. -/
def search : Regex → Search → Search
  | .empty, k => k
  | .literal bytes, k => fun s => if bytes.isPrefixOf s then k (s.drop bytes.length) else none
  | .charClass c, k => fun s => (c.rest? s).bind k
  | .look a, k => fun s => if holds a s then k s else none
  | .repetition body least most greedy, k =>
    Search.exactly (search body) (match most with
      | some most => Search.atMost (search body) greedy k (most - least)
      | none => fun s => Search.anyNumber (search body) greedy k s.length s) least
  | .capture _ body, k => search body k
  | .concat parts, k => searchSeq parts k
  | .alternation branches, k => searchAny branches k

/-- The search for matches one after the other. -/
def searchSeq : List Regex → Search → Search
  | [], k => k
  | r :: rs, k => search r (searchSeq rs k)

/-- The search for a match of one of the expressions, in their order. -/
def searchAny : List Regex → Search → Search
  | [], _ => fun _ => none
  | r :: rs, k => fun s => (search r k s).or (searchAny rs k s)

end

/-- **The match that comes first.** -/
def first? (r : Regex) : Search := search holds r some

end Search

/-! ## Expressions without a choice -/

mutual

/-- **Expressions in which nothing is a choice.** -/
def HasNoChoice : Regex → Prop
  | .alternation _ => False
  | .concat parts => AllWithoutChoice parts
  | .repetition body _ _ _ | .capture _ body => body.HasNoChoice
  | .empty | .literal _ | .charClass _ | .look _ => True

/-- Nothing is a choice in any of the expressions. -/
def AllWithoutChoice : List Regex → Prop
  | [] => True
  | r :: rs => r.HasNoChoice ∧ AllWithoutChoice rs

end

end GrammarKit.Regex
