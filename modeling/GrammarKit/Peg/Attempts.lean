/-!
# Failed attempts

While a text is read, the rules that failed at the furthest place are remembered; if reading fails
as a whole, they say what was expected there. A place is given by the number of characters that
are left behind it, so the furthest place has the fewest left.

* `Attempts`: the furthest place, and what was or was not expected there.
* `Attempts.record`: adds a failed rule.
* `Attempts.message`: the wording.
-/

namespace GrammarKit.Peg

/-- **The failed attempts at the furthest place so far.** -/
structure Attempts where
  /-- The characters left at that place. -/
  left : Nat
  /-- The rules that should have matched there, oldest first. -/
  expected : List String := []
  /-- The rules that should not have matched there, oldest first. -/
  unexpected : List String := []
deriving Repr, DecidableEq, Inhabited

namespace Attempts

/-- No attempts on a text of that length. -/
def none (length : Nat) : Attempts := { left := length }

/-- The number of attempts at a place. -/
def countAt (a : Attempts) (left : Nat) : Nat :=
  if a.left = left then a.expected.length + a.unexpected.length else 0

/-- The attempts at a place that were there already in `before`, if that is the furthest place. -/
def keep (a before : Attempts) (left : Nat) : Attempts :=
  if left = a.left then
    if before.left = left then
      { a with
        expected := a.expected.take before.expected.length
        unexpected := a.unexpected.take before.unexpected.length }
    else { left }
  else { left }

/-- The attempts with the rule `name` added, which was tried at the place `left` and left the
attempts `a` where it had found `before`. If it only passes on a single attempt of its parts at
that place, then that one is kept in its stead. A rule that failed behind the furthest place does
not count. -/
def record (a before : Attempts) (left : Nat) (name : String) (negated : Bool) : Attempts :=
  if a.countAt left = before.countAt left + 1 then a
  else if a.left < left then a
  else
    let b := a.keep before left
    if negated then { b with unexpected := b.unexpected ++ [name] }
    else { b with expected := b.expected ++ [name] }

/-- Names in a row: `a`, `a or b`, `a, b, or c`. -/
def enumerate : List String → String
  | [] => ""
  | [a] => a
  | [a, b] => a ++ " or " ++ b
  | names => String.intercalate ", " names.dropLast ++ ", or " ++ names.getLastD ""

/-- The names without repeats, in the given order. -/
def sorted (before : String → String → Bool) (names : List String) : List String :=
  (names.mergeSort before).eraseDups

/-- What was expected, with the names in the given order and each written by `written`. -/
def message (a : Attempts) (before : String → String → Bool) (written : String → String) : String :=
  let row (names : List String) := enumerate ((sorted before names).map written)
  match a.unexpected.isEmpty, a.expected.isEmpty with
  | false, false => "unexpected " ++ row a.unexpected ++ "; expected " ++ row a.expected
  | false, true => "unexpected " ++ row a.unexpected
  | true, false => "expected " ++ row a.expected
  | true, true => "unknown parsing error"

end Attempts

end GrammarKit.Peg
