import GrammarKit.Code.TypePath
import GrammarKit.Config
import GrammarKit.Model
import GrammarKit.Naming.Casing

/-!
# Names of generated code

Every name depends on the node's name, its kind and the configuration alone, so that types and
functions that are generated apart agree on it.

* `typeName`, `functionName`, `variantName`: names of types, functions and variants.
* `moduleName?`, `fieldName?`: names of modules and fields, which are raw where they clash with a
  key word.
* `NamingError`: what can be wrong with a name.
-/

namespace GrammarKit

open Code

/-- What can be wrong with the names of generated code. -/
inductive NamingError where
  | collision (name first second : String)
  | reserved (name node : String)
  | invalidIdentifier (name node : String)
  | fieldCollision (name first second owner : String)
  | duplicateVariant (variant owner : String)
  | invalidTypeMapping (node path : String)
deriving Repr, DecidableEq

/-- The report of an error. -/
def NamingError.message : NamingError → String
  | collision name first second =>
    "naming collision: '" ++ first ++ "' and '" ++ second ++ "' both map to '" ++ name ++ "'"
  | reserved name node =>
    "generated name '" ++ name ++ "' for '" ++ node ++ "' collides with a reserved name"
  | invalidIdentifier name node =>
    "generated name '" ++ name ++ "' for '" ++ node ++ "' is not a valid Rust identifier"
  | fieldCollision name first second owner =>
    "fields '" ++ first ++ "' and '" ++ second ++ "' of '" ++ owner ++ "' both map to '" ++
      name ++ "'"
  | duplicateVariant variant owner =>
    "union '" ++ owner ++ "' has two members mapping to variant '" ++ variant ++ "'"
  | invalidTypeMapping node path => "invalid type mapping for '" ++ node ++ "': '" ++ path ++ "'"

/-- Types that generated code declares for itself or uses by these names. -/
def reservedTypeNames : List String :=
  ["Root", "AnyNode", "AnyToken", "StringifyOptions", "FormattingOptions", "StringifyFn", "String",
    "Box", "Vec", "Option", "Result", "Self", "From", "Into", "Default"]

/-- Functions that generated code declares for itself. -/
def reservedFunctionNames : List String :=
  ["stringify", "stringify_with", "stringify_node", "get_indentation", "separator"]

/-- The name of the type for a node. -/
def typeName (c : Naming) (kind : NodeKind) (node : String) : String :=
  match kind with
  | .token => pascalCase node ++ c.tokenSuffix
  | .deduction => pascalCase node ++ c.nodeSuffix
  | .union => pascalCase node

/-- The name of the function that writes a node. -/
def functionName (c : Naming) (node : String) : String := c.functionPrefix ++ snakeCase node

/-- The name of the variant for a node. -/
def variantName (node : String) : String := pascalCase node

/-- A name in snake case, made raw if it is no identifier as it is. Some words are no raw names
either. -/
def snakeIdent? (name : String) : Option String :=
  let snake := snakeCase name
  if Code.isIdentifier snake then some snake
  else if Code.neverRaw.contains snake || !Code.isIdentifier ("r#" ++ snake) then none
  else some ("r#" ++ snake)

/-- A name in snake case, or the error that it gives none. -/
def snakeIdent (name : String) : Except NamingError String :=
  match snakeIdent? name with
  | some s => .ok s
  | none => .error (.invalidIdentifier (snakeCase name) name)

/-- The name of the module for a node. -/
def moduleName (node : String) : Except NamingError String := snakeIdent node

/-- The name of the field for a property. -/
def fieldName (property : String) : Except NamingError String := snakeIdent property

/-- The name of a module's file, without the mark of a raw name. -/
def moduleFile (name : String) : String :=
  match name.toList with
  | 'r' :: '#' :: s => String.ofList s
  | _ => name

end GrammarKit
