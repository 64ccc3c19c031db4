import GrammarKit.Schema.Generator
import GrammarKit.Stringifier.Items

/-!
# Files of the generated functions

* `StringifierPlan`: the parts of the generated functions.
* `StringifierPlan.code`, `StringifierPlan.separateFiles`: the two layouts.
* `generateStringifier`: the functions for a model, or what is wrong.
-/

namespace GrammarKit

open Code

/-- The parts of the generated functions. -/
structure StringifierPlan where
  model : Model
  names : Names
  config : StringifierConfig
  /-- One step of indentation. -/
  unit : String
  /-- The path of the types, if they have to be imported. -/
  schemaPath : Option (List Token)

/-- **The generated functions**: files as configured, all of it in one text, and its types. -/
structure Stringifier where
  files : Files
  code : String
  types : String

namespace StringifierPlan

/-- The import of the types. -/
def importItem (p : StringifierPlan) : List Token := (p.schemaPath.map importAll).getD []

/-- The types that all functions share. -/
def typeItems (p : StringifierPlan) : List (List Token) := optionItems p.unit p.config

/-- The functions for all nodes. -/
def functions (p : StringifierPlan) : List (List Token) :=
  p.model.nodes.entries.map (nodeFunction p.model p.names)

/-- All declarations. -/
def items (p : StringifierPlan) : List (List Token) :=
  p.importItem :: (p.typeItems ++ helperItems p.model p.names ++ p.functions)

/-- All declarations in one text. -/
def code (p : StringifierPlan) : String := codeFile p.model p.items

/-- The types in one text. -/
def types (p : StringifierPlan) : String := codeFile p.model p.typeItems

/-- The file with the types, which refer to imported ones through their parent. -/
def typesFile (p : StringifierPlan) : String :=
  if p.schemaPath.isSome then
    codeFile p.model ((allowUnusedImports ++ importAll (words "super")) :: p.typeItems)
  else p.types

/-- The file for a node. -/
def nodeFile (p : StringifierPlan) (e : NamedNode) : String × String :=
  ("nodes/" ++ moduleFile (p.names.moduleOf e.1) ++ ".rs",
    codeFile p.model [allowUnusedImports ++ importAll (words "super :: super"),
      nodeFunction p.model p.names e])

/-- The items of the index. -/
def indexItems (p : StringifierPlan) : List (List Token) :=
  [p.importItem,
    words "pub mod types ; pub use types :: * ;" ++
      SchemaPlan.nodesModule (p.model.names.map p.names.moduleOf)] ++
    helperItems p.model p.names

/-- The declarations in files of their own. -/
def separateFiles (p : StringifierPlan) : Files :=
  .ofList ([("types.rs", p.typesFile)] ++ p.model.nodes.entries.map p.nodeFile ++
    [("mod.rs", codeFile p.model p.indexItems)])

/-- The names for a node that have to be identifiers as they stand. -/
def nodeIdentifiers (p : StringifierPlan) (e : NamedNode) : List String :=
  [p.names.functionOf e.1] ++
    (if e.2.kind = .union then [] else [p.names.variantOf e.1]) ++
    (if p.config.separateFiles then [p.names.moduleOf e.1] else []) ++
    (if p.names.isMapped e.1 then []
    else match e.2.body with
      | .token _ => []
      | .deduction elements => (elements.filterMap Element.property).map p.names.fieldOf
      | .union members => members.map p.names.variantOf)

/-- The names that have to be identifiers as they stand. -/
def identifiers (p : StringifierPlan) : List String :=
  p.model.nodes.entries.flatMap p.nodeIdentifiers

/-- The generated functions. -/
def stringifier (p : StringifierPlan) : Stringifier where
  files := if p.config.separateFiles then p.separateFiles else .ofList [("stringifier.rs", p.code)]
  code := p.code
  types := p.types

/-- The warnings about elements that are not written. -/
def warnings (p : StringifierPlan) : List String :=
  p.model.nodes.entries.flatMap (nodeWarnings p.model p.names)

end StringifierPlan

/-- The path of the types as tokens; the empty path stands for no import. -/
def schemaPath? (path : String) : Option (Option (List Token)) :=
  if path = "" then some none else (typePath? path).map some

/-- **The functions that write the values of a model.** -/
def generateStringifier (m : Model) (naming : Naming) (c : StringifierConfig) :
    Generation Stringifier :=
  if m.faults ≠ [] then .refused m.faultMessages []
  else match resolveNames naming m with
    | .error errors => .refused (errors.map NamingError.message) []
    | .ok names =>
      match schemaPath? c.schemaPath with
      | none => .refused ["invalid schema path '" ++ c.schemaPath ++ "'"] (unknownMappings naming m)
      | some schemaPath =>
        match c.indentStyle.unit? with
        | none => .broken
        | some unit =>
          let p : StringifierPlan := ⟨m, names, c, unit, schemaPath⟩
          if p.identifiers.all fun s => (identToken? s).isSome then
            .done p.stringifier (unknownMappings naming m ++ p.warnings)
          else .broken

end GrammarKit
