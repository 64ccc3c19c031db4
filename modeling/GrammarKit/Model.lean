import GrammarKit.Table

/-!
# Grammar models

A model names the nodes of a language: **tokens** with a fixed text or a regular expression,
**deductions** that string elements together, and **unions** that offer a choice of members.
Nodes refer to each other by name; a model may hold names that no node has.

* `Pattern`, `Element`, `Body`, `Node`: what a node is made of.
* `Model`: the named nodes in order, with the start node.
* `Model.insert`, `Model.node?`, `Model.literalOf?`: building and reading a model.
-/

namespace GrammarKit

/-- What a token matches. -/
inductive Pattern where
  | literal (text : String)
  | regex (source : String)
deriving Repr, DecidableEq, Inhabited

/-- One part of a deduction: the node it refers to and the property it fills, if any. -/
structure Element where
  target : String
  property : Option String := none
deriving Repr, DecidableEq, Inhabited

/-- The three kinds of nodes with their parts. -/
inductive Body where
  | token (pattern : Pattern)
  | deduction (elements : List Element)
  | union (members : List String)
deriving Repr, DecidableEq, Inhabited

/-- The kinds of nodes. -/
inductive NodeKind where
  | token
  | deduction
  | union
deriving Repr, DecidableEq

/-- The word for a kind of node. -/
def NodeKind.word : NodeKind → String
  | token => "token"
  | deduction => "deduction"
  | union => "union"

/-- A node: its body and what is written about it. -/
structure Node where
  description : Option String := none
  body : Body
deriving Repr, DecidableEq, Inhabited

namespace Node

/-- The kind of a node. -/
def kind (n : Node) : NodeKind :=
  match n.body with
  | .token _ => .token
  | .deduction _ => .deduction
  | .union _ => .union

/-- The names a node refers to, in order. -/
def references (n : Node) : List String :=
  match n.body with
  | .token _ => []
  | .deduction elements => elements.map Element.target
  | .union members => members

end Node

/-- **A grammar model.** -/
structure Model where
  name : String
  version : String
  start : String
  nodes : Table Node
deriving DecidableEq, Inhabited

namespace Model

/-- The version of a model that states none. -/
def defaultVersion : String := "1.0.0"

/-- The model without nodes. -/
def new (name start : String) (version : String := defaultVersion) : Model :=
  ⟨name, version, start, ∅⟩

/-- The model with a node added, or replaced in its place. -/
def insert (m : Model) (name : String) (body : Body) : Model :=
  { m with nodes := m.nodes.insert name { body } }

/-- The node of that name. -/
def node? (m : Model) (name : String) : Option Node := m.nodes.get? name

/-- Whether the model has a node of that name. -/
def has (m : Model) (name : String) : Bool := m.nodes.contains name

/-- The node names in model order. -/
def names (m : Model) : List String := m.nodes.keys

/-- The kind of the node of that name. -/
def kindOf? (m : Model) (name : String) : Option NodeKind := (m.node? name).map Node.kind

/-- The names of the nodes of a kind, in model order. -/
def namesOf (m : Model) (k : NodeKind) : List String :=
  (m.nodes.entries.filter fun e => e.2.kind = k).map Prod.fst

/-- The text of a token that matches one text only. -/
def literalOf? (m : Model) (name : String) : Option String :=
  match (m.node? name).map Node.body with
  | some (.token (.literal text)) => some text
  | _ => none

/-- The names that the node `name` refers to. -/
def referencesOf (m : Model) (name : String) : List String :=
  ((m.node? name).map Node.references).getD []

end Model

end GrammarKit
