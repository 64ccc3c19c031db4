import GrammarKit.Peg.Expr
import GrammarKit.Regex.Elaboration

/-!
# From regular expressions to parsing expressions

A repetition in a grammar takes all it can and gives nothing back. A repetition is therefore
lowered only if the byte that could go on with it can never start what follows; else it is
refused. Everything beyond ASCII is treated alike: a class that reaches there matches any
character that is not ASCII.

* `ByteSet`: sets of first bytes, with one bucket for all bytes beyond ASCII.
* `Regex.firstBytes`: the bytes with which a match can start.
* `Regex.lower`: the parsing expression, given the bytes that may follow.
* `lowerPattern`: the parsing expression of a written pattern.
-/

namespace GrammarKit.Regex

open Peg

/-! ## Sets of bytes -/

/-- A set of bytes; those beyond ASCII come and go together in the sets built here. -/
structure ByteSet where
  bits : BitVec 256
deriving DecidableEq

namespace ByteSet

/-- No bytes. -/
def empty : ByteSet := ⟨0⟩

/-- Whether a byte is in the set. -/
def has (s : ByteSet) (n : Nat) : Bool := s.bits.getLsbD n

/-- The bytes from `first` on, `count` of them. -/
def span (first : Nat) : Nat → BitVec 256
  | 0 => 0
  | count + 1 => span first count ||| BitVec.twoPow 256 (first + count)

/-- The first and the last byte for an interval of bytes or code points: from 0x80 on, all share
one bucket. -/
def bucket (first last : Nat) : Nat × Nat :=
  (if 0x7F < first then 0x80 else first, if 0x7F < last then 0xFF else last)

/-- The set with the bytes of an interval. -/
def insert (s : ByteSet) (first last : Nat) : ByteSet :=
  let (first, last) := bucket first last
  ⟨s.bits ||| span first (last + 1 - first)⟩

/-- The bytes in either set. -/
def union (s t : ByteSet) : ByteSet := ⟨s.bits ||| t.bits⟩

/-- Whether two sets have a byte in common. -/
def intersects (s t : ByteSet) : Bool := (s.bits &&& t.bits) != 0

/-- The bytes of a set of intervals. -/
def ofIntervals (s : Intervals) : ByteSet := s.foldl (fun t r => t.insert r.1 r.2) empty

end ByteSet

mutual

/-- The bytes with which a match can start. -/
def firstBytes : Regex → ByteSet
  | .empty => .empty
  | .look _ => .empty
  | .literal bytes =>
    match bytes with
    | [] => .empty
    | b :: _ => ByteSet.empty.insert b.toNat b.toNat
  | .charClass c => .ofIntervals c.set
  | .repetition body _ _ _ => firstBytes body
  | .capture _ body => firstBytes body
  | .concat parts => firstBytesSeq parts
  | .alternation branches => firstBytesAny branches

/-- The bytes with which a match of a sequence can start. -/
def firstBytesSeq : List Regex → ByteSet
  | [] => .empty
  | r :: rs => if r.nullable then (firstBytes r).union (firstBytesSeq rs) else firstBytes r

/-- The bytes with which a match of some branch can start. -/
def firstBytesAny : List Regex → ByteSet
  | [] => .empty
  | r :: rs => (firstBytes r).union (firstBytesAny rs)

end

/-! ## Lowering -/

/-- What cannot be lowered. -/
inductive Unsupported where
  | invalidLiteral
  | anchor
  | lazyRepetition
  | backtracking
  | emptyClass
deriving Repr, DecidableEq

/-- The wording of what cannot be lowered. -/
def Unsupported.message : Unsupported → String
  | invalidLiteral => "non-UTF-8 literal"
  | anchor => "anchor or word boundary"
  | lazyRepetition => "lazy repetition"
  | backtracking => "backtracking repetition"
  | emptyClass => "empty character class"

/-- Any character beyond ASCII. -/
def beyondAscii : Expr := .seq (.notAhead (.ref "ASCII")) (.ref "ANY")

/-- The ASCII part of an interval. -/
def asciiPart (r : Nat × Nat) : Option Expr :=
  if 0x7F < r.1 then none
  else
    let last := min r.2 0x7F
    if r.1 = last then some (.text (Char.ofNat r.1).toString)
    else some (.range (Char.ofNat r.1) (Char.ofNat last))

/-- A class: its ASCII parts, then the rest in one. -/
def lowerClass (s : Intervals) : Except Unsupported Expr :=
  let beyond := if s.any fun r => 0x7F < r.2 then [beyondAscii] else []
  match s.filterMap asciiPart ++ beyond with
  | [] => .error .emptyClass
  | es => .ok (.firstOf es)

/-- The sign of a repetition. -/
def lowerTimes (least : Nat) (most : Option Nat) : Times :=
  match least, most with
  | 0, none => .star
  | 1, none => .plus
  | 0, some 1 => .optional
  | n, none => .atLeast n
  | n, some m => if n = m then .exactly n else if n = 0 then .atMost m else .between n m

/-- The bytes that may follow, once `r` stands in front of them. -/
def followBefore (r : Regex) (follow : ByteSet) : ByteSet :=
  if r.nullable then (firstBytes r).union follow else firstBytes r

/-- The bytes that may follow what stands in front of all of `rs`. -/
def followBeforeAll (rs : List Regex) (follow : ByteSet) : ByteSet := rs.foldr followBefore follow

mutual

/-- The parsing expression of a regular expression that bytes of `follow` may follow. -/
def lower (follow : ByteSet) : Regex → Except Unsupported Expr
  | .empty => .ok (.text "")
  | .literal bytes =>
    match Text.decode? bytes with
    | some s => .ok (.text (String.ofList s))
    | none => .error .invalidLiteral
  | .charClass c => lowerClass c.set
  | .look _ => .error .anchor
  | .repetition body least most greedy =>
    if !greedy then .error .lazyRepetition
    else if most ≠ some least ∧ (firstBytes body).intersects follow then .error .backtracking
    else do
      let e ← lower ((firstBytes body).union follow) body
      return .repeated e (lowerTimes least most)
  | .capture _ body => lower follow body
  | .concat parts => do return .sequence (← lowerSeq follow parts)
  | .alternation branches => do return .firstOf (← lowerAny follow branches)

/-- The parts of a sequence, each followed by the first bytes of those behind it. -/
def lowerSeq (follow : ByteSet) : List Regex → Except Unsupported (List Expr)
  | [] => .ok []
  | r :: rs => do
    let e ← lower (followBeforeAll rs follow) r
    return e :: (← lowerSeq follow rs)

/-- The branches of a choice. -/
def lowerAny (follow : ByteSet) : List Regex → Except Unsupported (List Expr)
  | [] => .ok []
  | r :: rs => do
    let e ← lower follow r
    return e :: (← lowerAny follow rs)

end

end GrammarKit.Regex

namespace GrammarKit

open Regex

/-- Why a pattern has no parsing expression. -/
inductive PatternError where
  | invalid (pattern : String) (cause : ReadError)
  | unsupported (pattern : String) (cause : Unsupported)
deriving Repr, DecidableEq

/-- The report of an error. -/
def PatternError.message : PatternError → String
  | invalid pattern cause => "invalid regex /" ++ pattern ++ "/: error: " ++ cause.message
  | unsupported pattern cause =>
    "unsupported construct in regex /" ++ pattern ++ "/: " ++ cause.message

/-- **The parsing expression of a written pattern.** -/
def lowerPattern (pattern : String) : Except PatternError Peg.Expr :=
  match Regex.parse pattern with
  | .error cause => .error (.invalid pattern cause)
  | .ok r => (Regex.lower .empty r).mapError (.unsupported pattern)

/-- Whether a pattern matches the empty text; one that cannot be read does not. -/
def patternNullable (pattern : String) : Bool :=
  match Regex.parse pattern with
  | .ok r => r.nullable
  | .error _ => false

end GrammarKit
