import GrammarKit.Json.Record
import GrammarKit.Model

/-!
# Models as documents

The form in which models are exchanged: a structured value with the nodes in order. A token's
pattern may be a bare text, and a text between slashes is then a regular expression; an element
may be a bare node name. A member that is read may not be given twice; other members are passed over.

* `Model.toDocument`: the document of a model.
* `Model.ofDocument?`: the model of a document.
-/

namespace GrammarKit

open Json

/-! ## Writing -/

/-- The document of a pattern says which of the two kinds it is. -/
def Pattern.toDocument : Pattern → Json
  | .literal text => .object [("literal", .string text)]
  | .regex source => .object [("regex", .string source)]

/-- The member that holds an optional text; an absent one is left out. -/
def optionalMember (key : String) : Option String → List (String × Json)
  | some text => [(key, .string text)]
  | none => []

/-- The document of an element. -/
def Element.toDocument (e : Element) : Json :=
  .object (("node", .string e.target) :: optionalMember "property" e.property)

/-- The members of a node's document that depend on its kind. -/
def Body.toMembers : Body → List (String × Json)
  | .token pattern => [("pattern", pattern.toDocument)]
  | .deduction elements => [("elements", .array (elements.map Element.toDocument))]
  | .union members => [("members", .ofTexts members)]

/-- The document of a node. -/
def Node.toDocument (n : Node) : Json :=
  .object (("type", .string n.kind.word) :: optionalMember "description" n.description ++
    n.body.toMembers)

/-- The document of a model. -/
def Model.toDocument (m : Model) : Json :=
  .object [("name", .string m.name), ("version", .string m.version), ("start", .string m.start),
    ("nodes", .object (m.nodes.entries.map fun e => (e.1, e.2.toDocument)))]

/-! ## Reading -/

/-- The text between two slashes. -/
def betweenSlashes? (text : String) : Option String :=
  match text.toList with
  | '/' :: s =>
    match s.reverse with
    | '/' :: r => some (String.ofList r.reverse)
    | _ => none
  | _ => none

/-- A bare text is a regular expression if it stands between slashes, else a literal. -/
def Pattern.ofText (text : String) : Pattern :=
  match betweenSlashes? text with
  | some source => .regex source
  | none => .literal text

/-- The pattern of a document. -/
def Pattern.ofDocument? : Json → Option Pattern
  | .string text => some (.ofText text)
  | .object members =>
    match soleText? members "literal", soleText? members "regex" with
    | some text, _ => some (.literal text)
    | none, some source => some (.regex source)
    | none, none => none
  | _ => none

/-- The element of a document. -/
def Element.ofDocument? : Json → Option Element
  | .string target => some { target }
  | .object members => do
    let fields ← knownMembers? ["node", "property"] members
    let target ← field? fields "node" text?
    let property ← fieldOr fields "property" none optionalText?
    return { target, property }
  | _ => none

/-- The node of a record whose kind is named by `type`. -/
def Node.ofRecord? (type : String) (record : Json) : Option Node :=
  if type = "token" then do
    let fields ← record.record? ["description", "pattern"]
    let description ← fieldOr fields "description" none optionalText?
    let pattern ← field? fields "pattern" Pattern.ofDocument?
    return { description, body := .token pattern }
  else if type = "deduction" then do
    let fields ← record.record? ["description", "elements"]
    let description ← fieldOr fields "description" none optionalText?
    let elements ← fieldOr fields "elements" [] (list? Element.ofDocument?)
    return { description, body := .deduction elements }
  else if type = "union" then do
    let fields ← record.record? ["description", "members"]
    let description ← fieldOr fields "description" none optionalText?
    let members ← fieldOr fields "members" [] texts?
    return { description, body := .union members }
  else none

/-- The node of a document: an object with a `type`, or an array that starts with the type. -/
def Node.ofDocument? : Json → Option Node
  | .object members => do
    let type ← soleText? members "type"
    Node.ofRecord? type (.object members)
  | .array (.string type :: fields) => Node.ofRecord? type (.array fields)
  | _ => none

/-- The model of a document. -/
def Model.ofDocument? (document : Json) : Option Model := do
  let fields ← document.record? ["name", "version", "start", "nodes"]
  let name ← field? fields "name" text?
  let version ← fieldOr fields "version" Model.defaultVersion text?
  let start ← field? fields "start" text?
  let nodes ← field? fields "nodes" (table? Node.ofDocument?)
  return { name, version, start, nodes }

end GrammarKit
