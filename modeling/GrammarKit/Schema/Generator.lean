import GrammarKit.Schema.Items

/-!
# Files of the generated types

The declarations stand in one file, or in a file per kind and per deduction with an index.

* `SchemaPlan.singleFile`, `SchemaPlan.separateFiles`: the two layouts.
* `generateSchema`: the files for a model, or what is wrong.
-/

namespace GrammarKit

open Code

namespace SchemaPlan

/-- The declarations in the order of a single file. -/
def items (p : SchemaPlan) : List (List Token) :=
  [p.constants] ++ p.tokenItems ++ p.declaredUnions.map unionItem ++
    p.declaredDeductions.map deductionItem ++ [p.rootAlias, p.anyNode]

/-- All declarations in one file. -/
def singleFile (p : SchemaPlan) (m : Model) (dir : String) : Files :=
  .ofList [(filePath dir "schema.rs", codeFile m p.items)]

/-- The items of the file for unions. -/
def unionItems (p : SchemaPlan) : List (List Token) :=
  if p.declaredUnions = [] then []
  else importAll (words "super") :: p.declaredUnions.map unionItem

/-- The file for a deduction. -/
def deductionFile (m : Model) (dir : String) (d : DeductionDecl) : String × String :=
  (filePath dir ("nodes/" ++ moduleFile d.module ++ ".rs"),
    codeFile m [allowUnusedImports ++ importAll (words "super :: super"), deductionItem d])

/-- A module with all it holds in sight. -/
def moduleTokens (module : String) : List Token :=
  words "pub mod" ++ nameTokens module ++ words "; pub use" ++ nameTokens module ++ words ":: * ;"

/-- The modules for deductions. -/
def nodesModule (modules : List String) : List Token :=
  words "pub mod nodes" ++ brace (modules.flatMap moduleTokens) ++ words "pub use nodes :: * ;"

/-- The items of the index. -/
def indexItems (p : SchemaPlan) : List (List Token) :=
  let modules := p.declaredDeductions.map DeductionDecl.module
  [words "pub mod constants ; pub mod token_types ; pub mod union_types ;" ++
      words "pub use constants :: * ; pub use token_types :: * ; pub use union_types :: * ;",
    if modules = [] then [] else nodesModule modules,
    p.rootAlias, p.anyNode]

/-- The declarations in files of their own. -/
def separateFiles (p : SchemaPlan) (m : Model) (dir : String) : Files :=
  .ofList (
    [(filePath dir "constants.rs", codeFile m [p.constants]),
      (filePath dir "token_types.rs", codeFile m p.tokenItems),
      (filePath dir "union_types.rs", codeFile m p.unionItems)] ++
    p.declaredDeductions.map (deductionFile m dir) ++
    [(filePath dir "mod.rs", codeFile m p.indexItems)])

/-- The names that have to be identifiers as they stand. -/
def identifiers (p : SchemaPlan) (separate : Bool) : List String :=
  p.declaredTokens.map TokenDecl.type ++ p.tokens.map TokenDecl.variant ++
    p.declaredUnions.flatMap (fun d => d.type :: d.variants.map VariantDecl.variant) ++
    p.deductions.map DeductionDecl.variant ++
    p.declaredDeductions.flatMap (fun d =>
      d.type :: d.fields.map FieldDecl.field ++ if separate then [d.module] else [])

/-- Warnings about kinds of nodes that the model does not have. -/
def warnings (p : SchemaPlan) : List String :=
  (if p.tokens = [] then ["no token nodes found"] else []) ++
    (if p.unions = [] then ["no union nodes found"] else []) ++
    (if p.deductions = [] then ["no deduction nodes found"] else [])

end SchemaPlan

/-- **The files of the types for a model.** -/
def generateSchema (m : Model) (naming : Naming) (c : SchemaConfig) : Generation Files :=
  match planSchema m naming c with
  | .error errors => .refused errors []
  | .ok p =>
    if (p.identifiers c.separateFiles).all fun s => (identToken? s).isSome then
      .done (if c.separateFiles then p.separateFiles m c.outputDir else p.singleFile m c.outputDir)
        (unknownMappings naming m ++ p.warnings)
    else .broken

end GrammarKit
