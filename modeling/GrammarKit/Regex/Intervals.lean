import GrammarKit.Text.LetterCase

/-!
# Sets of numbers as intervals

Character classes are sets of bytes or of code points, kept as closed intervals in increasing
order that neither overlap nor touch.

* `Intervals`, `normalize`: the intervals of a set.
* `union`, `inter`, `diff`, `symmDiff`, `complement`: operations on sets.
* `foldBytes`, `foldChars`: closure under case.
-/

namespace GrammarKit.Regex

open Text

/-- A set of numbers as a list of closed intervals. -/
abbrev Intervals := List (Nat × Nat)

namespace Intervals

/-- Whether a number is in the set. -/
def has (s : Intervals) (n : Nat) : Bool := s.any fun r => r.1 ≤ n && n ≤ r.2

/-- Inserts an interval before the first one that does not start earlier. -/
def insertSorted (r : Nat × Nat) : Intervals → Intervals
  | [] => [r]
  | q :: s => if r.1 ≤ q.1 then r :: q :: s else q :: insertSorted r s

/-- Joins intervals that overlap or touch; the list has to be sorted by first numbers. -/
def join : Nat × Nat → Intervals → Intervals
  | r, [] => [r]
  | r, q :: s => if q.1 ≤ r.2 + 1 then join (r.1, max r.2 q.2) s else r :: join q s

/-- The intervals with a member, in increasing order, joined where they overlap or touch. -/
def normalize (s : Intervals) : Intervals :=
  match (s.filter fun r => r.1 ≤ r.2).foldr insertSorted [] with
  | [] => []
  | r :: s => join r s

/-- The numbers in either set. -/
def union (s t : Intervals) : Intervals := normalize (s ++ t)

/-- The common part of two intervals, as a set. -/
def meet (r q : Nat × Nat) : Intervals :=
  if max r.1 q.1 ≤ min r.2 q.2 then [(max r.1 q.1, min r.2 q.2)] else []

/-- The numbers in both sets. -/
def inter (s t : Intervals) : Intervals :=
  normalize (s.flatMap fun r => t.flatMap fun q => meet r q)

/-- The numbers from `n` to `top` that lie outside a normalized set. -/
def gaps (top : Nat) : Nat → Intervals → Intervals
  | n, [] => if n ≤ top then [(n, top)] else []
  | n, r :: s => (if n < r.1 then [(n, r.1 - 1)] else []) ++ gaps top (r.2 + 1) s

/-- The numbers up to `top` outside the set. -/
def complement (top : Nat) (s : Intervals) : Intervals := gaps top 0 (normalize s)

/-- The numbers in the first set only. -/
def diff (s t : Intervals) : Intervals := inter s (complement 0x10FFFF t)

/-- The numbers in exactly one of the sets. -/
def symmDiff (s t : Intervals) : Intervals := diff (union s t) (inter s t)

/-! ## Bytes and characters -/

/-- The bytes outside the set. -/
def negateBytes (s : Intervals) : Intervals := complement 0xFF s

/-- An interval without surrogates at its ends. -/
def clip (r : Nat × Nat) : Intervals :=
  let first := if 0xD800 ≤ r.1 ∧ r.1 ≤ 0xDFFF then 0xE000 else r.1
  let last := if 0xD800 ≤ r.2 ∧ r.2 ≤ 0xDFFF then 0xD7FF else r.2
  if first ≤ last then [(first, last)] else []

/-- The characters outside the set. -/
def negateChars (s : Intervals) : Intervals := (complement 0x10FFFF s).flatMap clip

/-- Whether all numbers of a normalized set are ASCII. -/
def isAscii (s : Intervals) : Bool := s.all fun r => r.2 ≤ 0x7F

/-- The set with the other case of every ASCII letter. -/
def foldBytes (s : Intervals) : Intervals :=
  let upper := s.flatMap fun r => (meet r (0x61, 0x7A)).map fun q => (q.1 - 32, q.2 - 32)
  let lower := s.flatMap fun r => (meet r (0x41, 0x5A)).map fun q => (q.1 + 32, q.2 + 32)
  normalize (s ++ upper ++ lower)

/-- All code points that fold to another one, with that one. -/
def foldPairs : List (Nat × Nat) :=
  foldShifts.flatMap fun m =>
    (m.block.intervals.flatMap fun r =>
      (List.range (r.2 + 1 - r.1)).map fun k => (r.1 + k, (r.1 + k + m.distance).toNat))

/-- The set with every character that folds like one of its own. -/
def foldChars (s : Intervals) : Intervals :=
  let targets := (foldPairs.filter fun p => has s p.1 || has s p.2).map Prod.snd
  let sources := (foldPairs.filter fun p => targets.contains p.2).map Prod.fst
  normalize (s ++ targets.map (fun n => (n, n)) ++ sources.map fun n => (n, n))

/-- The intervals of a table of code points. -/
def ofBlocks (bs : List Block) : Intervals := normalize (bs.flatMap Block.intervals)

end Intervals

end GrammarKit.Regex
