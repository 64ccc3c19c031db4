import GrammarKit.Model.Validation

/-!
# Generating from a model

* `Generation`: how a generator ends.
* `Generation.distinct`: messages of several generators without repeats.
* `header`: the first line of every generated file.
-/

namespace GrammarKit

/-- **How a generator ends.** -/
inductive Generation (α : Type) where
  | done (output : α) (warnings : List String)
  | refused (errors warnings : List String)
  /-- A name passed all checks and yet is no identifier as it stands, or a text is too long. -/
  | broken
deriving Repr

namespace Generation

variable {α β : Type}

/-- What was generated. -/
def output? : Generation α → Option α
  | done output _ => some output
  | _ => none

/-- The errors. -/
def errors : Generation α → List String
  | refused errors _ => errors
  | _ => []

/-- The warnings. -/
def warnings : Generation α → List String
  | done _ warnings | refused _ warnings => warnings
  | broken => []

/-- Whether something was generated. -/
def success (g : Generation α) : Bool := g.output?.isSome

/-- Whether the generator broke down. -/
def isBroken : Generation α → Bool
  | broken => true
  | _ => false

/-- The generation with more warnings in front. -/
def withWarnings (more : List String) : Generation α → Generation α
  | done output warnings => done output (more ++ warnings)
  | refused errors warnings => refused errors (more ++ warnings)
  | broken => broken

/-- The messages without those that came before. -/
def distinct (messages : List String) : List String :=
  messages.foldl (fun seen message => if message ∈ seen then seen else seen ++ [message]) []

end Generation

/-- The first line of every file generated from a model. -/
def header (m : Model) : String :=
  "// @generated by bnf-forge from " ++ m.name ++ " " ++ m.version ++ ". Do not edit.\n"

end GrammarKit
