import GrammarKit.Notation.Reader
import GrammarKit.Stringifier.Generator

/-!
# Compiling a model

Types, functions and grammar of a model in one go. A model with faults gives none of them.

* `Compilation`: the three results.
* `compileModel`, `compileSource`: from a model, and from its notation.
-/

namespace GrammarKit

/-- **The results for a model.** -/
structure Compilation where
  schema : Generation Code.Files
  stringifier : Generation Stringifier
  grammar : Generation Grammar

namespace Compilation

/-- All results refused for the same reasons. -/
def refused (errors : List String) : Compilation :=
  ⟨.refused errors [], .refused errors [], .refused errors []⟩

/-- Whether everything was generated. -/
def success (c : Compilation) : Bool :=
  c.schema.success && c.stringifier.success && c.grammar.success

/-- Whether some generator broke down. -/
def isBroken (c : Compilation) : Bool :=
  c.schema.isBroken || c.stringifier.isBroken || c.grammar.isBroken

/-- The errors of all generators, each once. -/
def errors (c : Compilation) : List String :=
  Generation.distinct (c.schema.errors ++ c.stringifier.errors ++ c.grammar.errors)

/-- The warnings of all generators, each once. -/
def warnings (c : Compilation) : List String :=
  Generation.distinct (c.schema.warnings ++ c.stringifier.warnings ++ c.grammar.warnings)

end Compilation

/-- **Types, functions and grammar of a model.** Warnings about the model come with each. -/
def compileModel (m : Model) (c : Config) : Compilation :=
  if m.faults ≠ [] then .refused m.faultMessages
  else {
    schema := (generateSchema m c.naming c.schema).withWarnings m.warnings
    stringifier := (generateStringifier m c.naming c.stringifier).withWarnings m.warnings
    grammar := (generateGrammar m c.grammar).withWarnings m.warnings }

/-- Types, functions and grammar of a model in the notation. -/
def compileSource (source : String) (c : Config) : Compilation :=
  match Model.parse source with
  | .ok m => compileModel m c
  | .error e => .refused [e.message]

end GrammarKit
