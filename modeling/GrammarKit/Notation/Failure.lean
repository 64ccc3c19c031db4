import GrammarKit.Text.Position
import GrammarKit.Model

/-!
# Failures of the notation reader

A reader takes a value off the front of a text or says where and why it cannot. A failure that
is **committed** ends the reading; any other one lets the reader try something else.

* `Hint`, `Failure`, `Failure.detail`: what is known about a failure, and its wording.
* `Reader` and its combinators `orCommit`, `hinting`, `optional`.
* `NotationError`: why a text is no model.
-/

namespace GrammarKit.Notation

open Text

/-- What a reader was after: the name of a part, a text it expected, or a description of one. -/
inductive Hint where
  | part (name : String)
  | expected (text : String)
  | described (text : String)
deriving Repr, DecidableEq

/-- Why a reader stopped in front of `rest`; hints go from the inner parts to the outer ones. -/
structure Failure where
  rest : List Char
  committed : Bool := false
  hints : List Hint := []
deriving Repr

namespace Hint

/-- The part that a hint names. -/
def part? : Hint → Option String
  | part name => some name
  | _ => none

/-- The wording of an expectation; a text is shown between backquotes. -/
def expectation? : Hint → Option String
  | expected text => some ("`" ++ text ++ "`")
  | described text => some text
  | part _ => none

end Hint

/-- The wording of a failure: the innermost part, then all that was expected. -/
def Failure.detail (f : Failure) : String :=
  let part := (f.hints.filterMap Hint.part?).take 1
  let expectations := f.hints.filterMap Hint.expectation?
  let clauses := part.map ("invalid " ++ ·) ++
    (if expectations = [] then [] else ["expected " ++ ", ".intercalate expectations])
  if clauses = [] then "unexpected input" else "; ".intercalate clauses

/-- A reader takes a value off the front of a text. -/
abbrev Reader (α : Type) := List Char → Except Failure (α × List Char)

namespace Reader

variable {α : Type}

/-- `r`, every failure of which is committed. -/
def orCommit (r : Reader α) : Reader α := fun s =>
  (r s).mapError fun f => { f with committed := true }

/-- `r`, the failures of which get further hints. -/
def hinting (r : Reader α) (hints : List Hint) : Reader α := fun s =>
  (r s).mapError fun f => { f with hints := f.hints ++ hints }

/-- `r`, or nothing if `r` fails without commitment. -/
def optional (r : Reader α) : Reader (Option α) := fun s =>
  match r s with
  | .ok (a, s) => .ok (some a, s)
  | .error f => if f.committed then .error f else .ok (none, s)

/-- Takes `r` as often as it succeeds, at most `n` times. -/
def many (r : Reader α) : Nat → Reader (List α)
  | 0, s => .ok ([], s)
  | n + 1, s =>
    match r s with
    | .ok (a, s) => do
      let (as, s) ← many r n s
      return (a :: as, s)
    | .error f => if f.committed then .error f else .ok ([], s)

end Reader

end GrammarKit.Notation

namespace GrammarKit

/-- Why a text is no model. -/
inductive NotationError where
  | malformed (position : Text.Position) (detail : String)
  | duplicateNode (name : String)
deriving Repr, DecidableEq

/-- The report of an error. -/
def NotationError.message : NotationError → String
  | malformed p detail =>
    "syntax error at " ++ toString p.line ++ ":" ++ toString p.column ++ ": " ++ detail
  | duplicateNode name => "duplicate node definition: '" ++ name ++ "'"

end GrammarKit
