import GrammarKit.Model.Components
import GrammarKit.Model.Nullable

/-!
# First symbols and left recursion

A node leads to those nodes that can come first when it is expanded. A node that leads back to
itself in this way is **left-recursive**.

* `Model.firstSymbols`: the nodes that can come first in a node.
* `Model.leftCycles`: the groups of nodes that lead to each other.
* `Model.leftRecursive`: all left-recursive nodes, in model order.
-/

namespace GrammarKit

/-- The list without repeats, every entry where it first stood. -/
def distinct : List String → List String
  | [] => []
  | x :: xs => x :: (distinct xs).filter (· ≠ x)

namespace Model

/-- The elements of a deduction up to the first one that does not match the empty text. -/
def leadingTargets (nullable : List String) : List String → List String
  | [] => []
  | x :: xs => if x ∈ nullable then x :: leadingTargets nullable xs else [x]

/-- The names that can come first in a node, given the nodes that match the empty text. -/
def firstIn (m : Model) (nullable : List String) (n : Node) : List String :=
  match n.body with
  | .token _ => []
  | .deduction elements =>
    distinct ((leadingTargets nullable (elements.map Element.target)).filter m.has)
  | .union members => distinct (members.filter m.has)

/-- The nodes that can come first in each node, in model order. -/
def firstSymbols (m : Model) : Table (List String) :=
  let nullable := m.nullable
  m.nodes.map fun _ n => m.firstIn nullable n

/-- The nodes that can come first in a node. -/
def successors (m : Model) (name : String) : List String := (m.firstSymbols.get? name).getD []

/-- Whether a component is a cycle: a single node has to lead to itself. -/
def isCycle (next : String → List String) : List String → Bool
  | [] => false
  | [x] => (next x).contains x
  | _ => true

/-- Whether a node stands no later in the model than another one. -/
def inOrder (m : Model) (x y : String) : Bool := m.names.idxOf x ≤ m.names.idxOf y

/-- **The groups of nodes that lead to each other**, each in model order, by their first node. -/
def leftCycles (m : Model) : List (List String) :=
  let first := m.firstSymbols
  let next (x : String) := (first.get? x).getD []
  let cycles := (Graph.components next m.names).filter (isCycle next)
  (cycles.map (·.mergeSort m.inOrder)).mergeSort fun c d => m.inOrder (c.headD "") (d.headD "")

/-- All left-recursive nodes, in model order. -/
def leftRecursive (m : Model) : List String :=
  let cyclic := m.leftCycles.flatten
  m.names.filter (· ∈ cyclic)

end Model

end GrammarKit
