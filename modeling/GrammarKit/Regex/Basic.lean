import GrammarKit.Regex.Intervals
import GrammarKit.Regex.Syntax
import GrammarKit.Text.Utf8

/-!
# Regular expressions

Regular expressions over bytes, in a simplified form that the constructors below keep: literals
are joined, sequences and choices are flat, and a choice between single characters is a class.

* `Regex`: the expressions.
* `Regex.minLength`, `Regex.maxLength`: the lengths of what an expression matches.
* `Regex.ofClass`, `Regex.repeated`, `Regex.ofParts`, `Regex.ofBranches`: the constructors.
-/

namespace GrammarKit

open Regex Text

/-- A class of bytes or of characters. -/
inductive Regex.CharClass where
  | bytes (set : Intervals)
  | chars (set : Intervals)
deriving Repr, DecidableEq

/-- A place that matches without taking any text; lines may end in two characters, and words may
be of any script. -/
structure Regex.Anchor where
  place : Assertion
  crlf : Bool := false
  unicode : Bool := false
deriving Repr, DecidableEq

/-- **A regular expression.** -/
inductive Regex where
  | empty
  | literal (bytes : List UInt8)
  | charClass (c : CharClass)
  | look (a : Anchor)
  | repetition (body : Regex) (least : Nat) (most : Option Nat) (greedy : Bool)
  | capture (index : Nat) (body : Regex)
  | concat (parts : List Regex)
  | alternation (branches : List Regex)
deriving Inhabited, BEq

namespace Regex

namespace CharClass

/-- The intervals of a class. -/
def set : CharClass → Intervals
  | bytes s => s
  | chars s => s

/-- The bytes that a character takes. -/
def width (n : Nat) : Nat :=
  if n < 0x80 then 1 else if n < 0x800 then 2 else if n < 0x10000 then 3 else 4

/-- The bytes of the shortest member. -/
def minLength? : CharClass → Option Nat
  | bytes s => s.head?.map fun _ => 1
  | chars s => s.head?.map fun r => width r.1

/-- The bytes of the longest member. -/
def maxLength? : CharClass → Option Nat
  | bytes s => s.getLast?.map fun _ => 1
  | chars s => s.getLast?.map fun r => width r.2

/-- The only member of a class, as bytes. -/
def only? : CharClass → Option (List UInt8)
  | bytes [(a, b)] => if a = b then some [a.toUInt8] else none
  | chars [(a, b)] => if a = b then some (encode [Char.ofNat a]) else none
  | _ => none

end CharClass

/-! ## Lengths -/

mutual

/-- The least number of bytes that the expression matches; none if it cannot match. -/
def minLength : Regex → Option Nat
  | empty => some 0
  | literal bytes => some bytes.length
  | charClass c => c.minLength?
  | look _ => some 0
  | repetition body least _ _ => body.minLength.map (· * least)
  | capture _ body => body.minLength
  | concat parts => minLengthSum parts
  | alternation branches => minLengthLeast branches

/-- The sum of the least lengths. -/
def minLengthSum : List Regex → Option Nat
  | [] => some 0
  | r :: rs => do return (← r.minLength) + (← minLengthSum rs)

/-- The least of the least lengths; none if a branch has none. -/
def minLengthLeast : List Regex → Option Nat
  | [] => none
  | [r] => r.minLength
  | r :: rs => do return min (← r.minLength) (← minLengthLeast rs)

end

mutual

/-- The greatest number of bytes that the expression matches; none if there is no such number. -/
def maxLength : Regex → Option Nat
  | empty => some 0
  | literal bytes => some bytes.length
  | charClass c => c.maxLength?
  | look _ => some 0
  | repetition body _ most _ => do return (← body.maxLength) * (← most)
  | capture _ body => body.maxLength
  | concat parts => maxLengthSum parts
  | alternation branches => maxLengthGreatest branches

/-- The sum of the greatest lengths. -/
def maxLengthSum : List Regex → Option Nat
  | [] => some 0
  | r :: rs => do return (← r.maxLength) + (← maxLengthSum rs)

/-- The greatest of the greatest lengths; none if a branch has none. -/
def maxLengthGreatest : List Regex → Option Nat
  | [] => none
  | [r] => r.maxLength
  | r :: rs => do return max (← r.maxLength) (← maxLengthGreatest rs)

end

/-- Whether the expression matches the empty text. -/
def nullable (r : Regex) : Bool := r.minLength == some 0

/-! ## Constructors -/

/-- The expression that never matches. -/
def fail : Regex := charClass (.bytes [])

/-- A literal; without bytes it is the empty expression. -/
def ofBytes (bytes : List UInt8) : Regex := if bytes = [] then empty else literal bytes

/-- A class; one with a single member is a literal, one without members never matches. -/
def ofClass (c : CharClass) : Regex :=
  if c.set = [] then fail
  else match c.only? with
    | some bytes => ofBytes bytes
    | none => charClass c

/-- A repetition. What matches the empty text only is not repeated more than once, no repetition
at all is the empty expression, and one is the body itself. -/
def repeated (body : Regex) (least : Nat) (most : Option Nat) (greedy : Bool) : Regex :=
  let (least, most) :=
    if body.maxLength = some 0 then (min least 1, some ((most.map (min · 1)).getD 1))
    else (least, most)
  if least = 0 ∧ most = some 0 then empty
  else if least = 1 ∧ most = some 1 then body
  else repetition body least most greedy

/-- The parts of a sequence, or the expression alone. -/
def parts : Regex → List Regex
  | concat parts => parts
  | empty => []
  | r => [r]

/-- Joins literals that stand side by side. -/
def joinLiterals : List Regex → List Regex
  | [] => []
  | literal a :: rs =>
    match joinLiterals rs with
    | literal b :: rs => literal (a ++ b) :: rs
    | rs => literal a :: rs
  | r :: rs => r :: joinLiterals rs

/-- A sequence: flat, without empty parts, literals joined. -/
def ofParts (rs : List Regex) : Regex :=
  match joinLiterals (rs.flatMap parts) with
  | [] => empty
  | [r] => r
  | rs => concat rs

/-- The branches of a choice, or the expression alone. -/
def branches : Regex → List Regex
  | alternation branches => branches
  | r => [r]

/-- The character that a literal consists of. -/
def singleChar? : Regex → Option Nat
  | literal bytes =>
    match decodeChar? bytes with
    | some (c, []) => some c.toNat
    | _ => none
  | _ => none

/-- The byte that a literal consists of. -/
def singleByte? : Regex → Option Nat
  | literal [b] => some b.toNat
  | _ => none

/-- The characters of a class; a class of bytes has to be ASCII for that. -/
def classChars? : Regex → Option Intervals
  | charClass (.chars s) => some s
  | charClass (.bytes s) => if s.isAscii then some s else none
  | _ => none

/-- The bytes of a class; a class of characters has to be ASCII for that. -/
def classBytes? : Regex → Option Intervals
  | charClass (.chars s) => if s.isAscii then some s else none
  | charClass (.bytes s) => some s
  | _ => none

/-- The class that holds what all branches match, if these are single characters or classes. -/
def mergedClass? (rs : List Regex) : Option CharClass :=
  let singles (f : Regex → Option Nat) : Option Intervals :=
    (rs.mapM f).map fun ns => .normalize (ns.map fun n => (n, n))
  let merged (f : Regex → Option Intervals) : Option Intervals :=
    (rs.mapM f).map fun ss => .normalize ss.flatten
  ((singles singleChar?).map .chars <|> (singles singleByte?).map .bytes) <|>
    ((merged classChars?).map .chars <|> (merged classBytes?).map .bytes)

/-- The parts that two sequences start with in common. -/
def commonParts : List Regex → List Regex → List Regex
  | r :: rs, q :: qs => if r == q then r :: commonParts rs qs else []
  | _, _ => []

/-- The parts of a proper sequence. -/
def concat? : Regex → Option (List Regex)
  | concat parts => some parts
  | _ => none

/-- The parts that all branches start with, if all branches are sequences. -/
def commonStart (rs : List Regex) : List Regex :=
  match rs.mapM concat? with
  | some (first :: rest) => rest.foldl commonParts first
  | _ => []

mutual

/-- The number of constructors of an expression. -/
def size : Regex → Nat
  | repetition body _ _ _ => body.size + 1
  | capture _ body => body.size + 1
  | concat parts => sizes parts + 1
  | alternation branches => sizes branches + 1
  | _ => 1

/-- The number of constructors of several expressions. -/
def sizes : List Regex → Nat
  | [] => 0
  | r :: rs => r.size + sizes rs

end

/-- A choice: flat, a class where that is possible, and with a start that all branches have in
common taken out in front. Taking it out makes the branches smaller, so `n` steps suffice for
branches of `n` constructors. -/
def choose : Nat → List Regex → Regex
  | 0, rs => alternation rs
  | n + 1, rs =>
    match rs.flatMap branches with
    | [] => fail
    | [r] => r
    | rs =>
      match mergedClass? rs with
      | some c => ofClass c
      | none =>
        match commonStart rs with
        | [] => alternation rs
        | start =>
          ofParts (start ++ [choose n (rs.map fun r => ofParts (r.parts.drop start.length))])

/-- A choice between expressions. -/
def ofBranches (rs : List Regex) : Regex := choose (sizes rs + 1) rs

end Regex

end GrammarKit
