import GrammarKit.Naming.Names

/-!
# The names for a model

The names for all nodes and properties of a model are found before anything is generated; clashes
between them, names in use already and names that are no identifiers are reported together.

* `NodeNames`, `Names`: the names for a node and for a model.
* `nodeErrors`: what is wrong with the names for one node, given the nodes before it.
* `resolveNames`: all names, or all that is wrong with them.
* `unknownMappings`: types for nodes that do not exist.
-/

namespace GrammarKit

open Code

/-- The names for a node. -/
structure NodeNames where
  type : String
  function : String
  variant : String
  module : String
  /-- Whether the type comes from outside. -/
  mapped : Bool
deriving Repr, DecidableEq, Inhabited

/-- **The names for a model**: those for its nodes, and the fields for its properties. -/
structure Names where
  nodes : Table NodeNames
  fields : Table String

namespace Names

/-- A name for a node; a name without an entry stands for itself. -/
def lookup (names : Names) (f : NodeNames → String) (node : String) : String :=
  ((names.nodes.get? node).map f).getD node

/-- The type for a node. -/
def typeOf (names : Names) (node : String) : String := names.lookup NodeNames.type node

/-- The function for a node. -/
def functionOf (names : Names) (node : String) : String := names.lookup NodeNames.function node

/-- The variant for a node. -/
def variantOf (names : Names) (node : String) : String := names.lookup NodeNames.variant node

/-- The module for a node. -/
def moduleOf (names : Names) (node : String) : String := names.lookup NodeNames.module node

/-- Whether the type for a node comes from outside. -/
def isMapped (names : Names) (node : String) : Bool :=
  ((names.nodes.get? node).map NodeNames.mapped).getD false

/-- The field for a property. -/
def fieldOf (names : Names) (property : String) : String :=
  (names.fields.get? property).getD property

end Names

/-- A node with its name. -/
abbrev NamedNode := String × Node

/-- The path of a type from outside, without white space around it. -/
def mappedType? (c : Naming) (e : NamedNode) : Option String :=
  (c.typeMapping.get? e.1).map fun path => String.ofList (Text.trim path.toList)

/-- The type for a node. -/
def chosenType (c : Naming) (e : NamedNode) : String :=
  (mappedType? c e).getD (typeName c e.2.kind e.1)

/-- The variant for a node, if it is checked: that of a union with a generated type is its type
name, which is checked as such. -/
def checkedVariant? (c : Naming) (e : NamedNode) : Option String :=
  if e.2.kind ≠ .union ∨ (mappedType? c e).isSome then some (variantName e.1) else none

/-- The module for a node. -/
def chosenModule? (e : NamedNode) : Option String := snakeIdent? e.1

/-! ## Errors -/

/-- An earlier node with the same name. -/
def collisionErrors (earlier : List NamedNode) (nameOf : NamedNode → Option String) (node : String)
    (name : String) : List NamingError :=
  match earlier.find? fun e => nameOf e = some name with
  | some first => [.collision name first.1 node]
  | none => []

/-- What is wrong with a name by itself. -/
def identifierErrors (reserved : List String) (node name : String) : List NamingError :=
  if !Code.isIdentifier name then [.invalidIdentifier name node]
  else if name ∈ reserved then [.reserved name node]
  else []

/-- What is wrong with the type for a node. -/
def typeErrors (c : Naming) (earlier : List NamedNode) (e : NamedNode) : List NamingError :=
  (match mappedType? c e with
    | some path => if (typePath? path).isSome then [] else [.invalidTypeMapping e.1 path]
    | none => identifierErrors reservedTypeNames e.1 (chosenType c e)) ++
  collisionErrors earlier (fun f => some (chosenType c f)) e.1 (chosenType c e)

/-- What is wrong with the function for a node. -/
def functionErrors (c : Naming) (earlier : List NamedNode) (e : NamedNode) : List NamingError :=
  identifierErrors reservedFunctionNames e.1 (functionName c e.1) ++
    collisionErrors earlier (fun f => some (functionName c f.1)) e.1 (functionName c e.1)

/-- What is wrong with the variant for a node. -/
def variantErrors (c : Naming) (earlier : List NamedNode) (e : NamedNode) : List NamingError :=
  match checkedVariant? c e with
  | some variant =>
    identifierErrors [] e.1 variant ++ collisionErrors earlier (checkedVariant? c) e.1 variant
  | none => []

/-- What is wrong with the module for a node. -/
def moduleErrors (earlier : List NamedNode) (e : NamedNode) : List NamingError :=
  match chosenModule? e with
  | some name => identifierErrors [] e.1 name ++ collisionErrors earlier chosenModule? e.1 name
  | none => [.invalidIdentifier (snakeCase e.1) e.1]

/-- Members that repeat the variant of an earlier one. -/
def memberErrors (owner : String) : List String → List String → List NamingError
  | _, [] => []
  | seen, member :: members =>
    let variant := variantName member
    (if variant ∈ seen then [.duplicateVariant variant owner] else []) ++
      memberErrors owner (variant :: seen) members

/-- What is wrong with the fields for properties that follow those in `earlier`. -/
def fieldErrors (owner : String) : List String → List String → List NamingError
  | _, [] => []
  | earlier, property :: properties =>
    (match snakeIdent? property with
      | some field =>
        match earlier.find? fun p => snakeIdent? p = some field with
        | some first =>
          if first ≠ property then [.fieldCollision field first property owner] else []
        | none => []
      | none => [.invalidIdentifier (snakeCase property) property]) ++
    fieldErrors owner (earlier ++ [property]) properties

/-- What is wrong with the parts of a node. -/
def partErrors (e : NamedNode) : List NamingError :=
  match e.2.body with
  | .token _ => []
  | .union members => memberErrors e.1 [] members
  | .deduction elements => fieldErrors e.1 [] (elements.filterMap Element.property)

/-- What is wrong with the names for a node, given the nodes before it. -/
def nodeErrors (c : Naming) (earlier : List NamedNode) (e : NamedNode) : List NamingError :=
  typeErrors c earlier e ++ functionErrors c earlier e ++ variantErrors c earlier e ++
    moduleErrors earlier e ++ partErrors e

/-- What is wrong with the names for nodes that follow `earlier`. -/
def namingErrors (c : Naming) : List NamedNode → List NamedNode → List NamingError
  | _, [] => []
  | earlier, e :: nodes => nodeErrors c earlier e ++ namingErrors c (earlier ++ [e]) nodes

/-! ## Names -/

/-- The names for a node. -/
def nodeNames (c : Naming) (e : NamedNode) : NodeNames where
  type := chosenType c e
  function := functionName c e.1
  variant := variantName e.1
  module := (chosenModule? e).getD e.1
  mapped := (mappedType? c e).isSome

/-- The properties of a node, in order. -/
def Node.properties (n : Node) : List String :=
  match n.body with
  | .deduction elements => elements.filterMap Element.property
  | _ => []

/-- The properties of a model, in order. -/
def Model.properties (m : Model) : List String := m.nodes.entries.flatMap fun e => e.2.properties

/-- The names for a model, whatever is wrong with them. -/
def namesOf (c : Naming) (m : Model) : Names where
  nodes := m.nodes.map fun name node => nodeNames c (name, node)
  fields := .ofList (m.properties.filterMap fun p => (snakeIdent? p).map fun field => (p, field))

/-- **The names for a model**, or all that is wrong with them. -/
def resolveNames (c : Naming) (m : Model) : Except (List NamingError) Names :=
  match namingErrors c [] m.nodes.entries with
  | [] => .ok (namesOf c m)
  | errors => .error errors

/-- Warnings about types for nodes that do not exist. -/
def unknownMappings (c : Naming) (m : Model) : List String :=
  (c.typeMapping.keys.filter (!m.has ·)).map fun node =>
    "type mapping for unknown node '" ++ node ++ "' is ignored"

end GrammarKit
