import GrammarKit.Model
import GrammarKit.Model.Graph

/-!
# Reachable nodes and concrete types

Walks along the references of a model; references to missing nodes lead nowhere.

* `Model.unreachable`: the nodes that no walk from the start node meets, in model order.
* `Model.concreteTypes`: the tokens and deductions that a name stands for, unions expanded from
  left to right.
-/

namespace GrammarKit.Model

/-- The nodes that the start node leads to, itself included. The walk puts all references of a node
on its stack and takes the first of them first. A search that takes the last of them first, or keeps
off the stack what it has met, meets the same nodes in another order, and only membership in this
list is asked for. -/
def reachable (m : Model) : List String := Graph.reachedFrom m.referencesOf m.names m.start

/-- The nodes that the start node does not lead to, in model order. -/
def unreachable (m : Model) : List String := m.names.filter (· ∉ m.reachable)

/-- The members of a union; other nodes have none. -/
def membersOf (m : Model) (name : String) : List String :=
  match (m.node? name).map Node.body with
  | some (.union members) => members
  | _ => []

/-- Whether the name is that of a token or a deduction. -/
def isConcrete (m : Model) (name : String) : Bool :=
  match m.kindOf? name with
  | some .token | some .deduction => true
  | _ => false

/-- The types that a value in the place of `name` may have: `name` itself for a token or a
deduction, what the members stand for in the case of a union. -/
def concreteTypes (m : Model) (name : String) : List String :=
  (Graph.reachedFrom m.membersOf m.names name).filter m.isConcrete

end GrammarKit.Model
