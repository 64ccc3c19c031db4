import GrammarKit.Model.Reachability

/-!
# Well-formed models

* `isIdentifier`: names of nodes and properties.
* `Fault`, `Fault.message`: what can be wrong with a model.
* `Model.faults`: everything that is wrong with a model, in a fixed order.
* `Model.warnings`: the nodes that cannot be reached.
-/

namespace GrammarKit

/-- The first character of an identifier. -/
def isIdentifierStart (c : Char) : Bool := c.isAlpha || c == '_'

/-- A further character of an identifier. -/
def isIdentifierPart (c : Char) : Bool := c.isAlphanum || c == '_'

/-- ASCII letters, digits and underscores, no digit in front. -/
def isIdentifier (name : String) : Bool :=
  match name.toList with
  | [] => false
  | c :: s => isIdentifierStart c && s.all isIdentifierPart

/-- What can be wrong with a model. -/
inductive Fault where
  | emptyModel
  | missingStart (start : String)
  | unknownReference (name owner : String)
  | invalidNodeName (name : String)
  | emptyUnion (name : String)
  | invalidPropertyName (property owner : String)
  | duplicateProperty (property owner : String)
  | reservedProperty (owner : String)
deriving Repr, DecidableEq

/-- The report of a fault. -/
def Fault.message : Fault → String
  | emptyModel => "model must have at least one node"
  | missingStart start => "start node must exist in nodes (got '" ++ start ++ "')"
  | unknownReference name owner => "unknown node reference '" ++ name ++ "' in '" ++ owner ++ "'"
  | invalidNodeName name => "invalid node name '" ++ name ++ "'"
  | emptyUnion name => "union '" ++ name ++ "' must have at least one member"
  | invalidPropertyName property owner =>
    "invalid property name '" ++ property ++ "' in '" ++ owner ++ "'"
  | duplicateProperty property owner =>
    "duplicate property '" ++ property ++ "' in '" ++ owner ++ "'"
  | reservedProperty owner => "property name 'type' is reserved in '" ++ owner ++ "'"

/-- The property that every value has already. -/
def reservedPropertyName : String := "type"

/-- The faults of one property by itself. -/
def propertyNameFaults (owner property : String) : List Fault :=
  if property = reservedPropertyName then [.reservedProperty owner]
  else if isIdentifier property then [] else [.invalidPropertyName property owner]

/-- The faults of a list of properties that follows those in `seen`. -/
def propertyFaults (owner : String) : List String → List String → List Fault
  | _, [] => []
  | seen, property :: properties =>
    propertyNameFaults owner property ++
      (if property ∈ seen then [.duplicateProperty property owner] else []) ++
      propertyFaults owner (property :: seen) properties

/-- The faults of a node's own parts. -/
def Body.faults (owner : String) : Body → List Fault
  | .token _ => []
  | .deduction elements => propertyFaults owner [] (elements.filterMap Element.property)
  | .union members => if members = [] then [.emptyUnion owner] else []

namespace Model

/-- References to nodes that do not exist. -/
def referenceFaults (m : Model) : List Fault :=
  m.nodes.entries.flatMap fun e =>
    (e.2.references.filter (!m.has ·)).map fun name => .unknownReference name e.1

/-- Names that are no identifiers. -/
def nameFaults (m : Model) : List Fault :=
  (m.names.filter (!isIdentifier ·)).map .invalidNodeName

/-- **Everything that is wrong with a model**: the model as a whole, then references, node names
and the parts of nodes, each in model order. -/
def faults (m : Model) : List Fault :=
  (if m.names = [] then [.emptyModel] else []) ++
    (if m.has m.start then [] else [.missingStart m.start]) ++
    m.referenceFaults ++ m.nameFaults ++
    m.nodes.entries.flatMap fun e => e.2.body.faults e.1

/-- The reports of the faults. -/
def faultMessages (m : Model) : List String := m.faults.map Fault.message

/-- A warning for each node that the start node does not lead to; none without a start node. -/
def warnings (m : Model) : List String :=
  if m.has m.start then
    m.unreachable.map fun name =>
      "node '" ++ name ++ "' is unreachable from start node '" ++ m.start ++ "'"
  else []

end Model

end GrammarKit
