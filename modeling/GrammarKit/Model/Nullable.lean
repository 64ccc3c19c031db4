import GrammarKit.Model
import GrammarKit.Regex.Lowering

/-!
# Nodes that match the empty text

A token matches the empty text if its pattern does, a deduction if all its elements do, a union
if one of its members does. Passes over the model add such nodes until none is left to add.

* `Body.nullableIn`: whether a node matches the empty text, given some that do.
* `Model.nullable`: all nodes that do, in the order in which the passes find them.
-/

namespace GrammarKit

/-- Whether a pattern matches the empty text. -/
def Pattern.nullable : Pattern → Bool
  | .literal text => text = ""
  | .regex source => patternNullable source

/-- Whether a node matches the empty text if the nodes in `known` do. -/
def Body.nullableIn (known : List String) : Body → Bool
  | .token pattern => pattern.nullable
  | .deduction elements => elements.all fun e => e.target ∈ known
  | .union members => members.any (· ∈ known)

namespace Model

/-- One pass over the nodes; what it adds counts at once. -/
def nullablePass (m : Model) (known : List String) : List String :=
  m.nodes.entries.foldl (fun known e =>
    if e.1 ∈ known then known
    else if e.2.body.nullableIn known then known ++ [e.1] else known) known

/-- Passes until one adds nothing, at most `n`. -/
def nullableAfter (m : Model) : Nat → List String → List String
  | 0, known => known
  | n + 1, known =>
    let next := m.nullablePass known
    if next.length = known.length then known else nullableAfter m n next

/-- **The nodes that match the empty text.** Every pass but the last adds a node, so there are
not more passes than nodes besides the last. -/
def nullable (m : Model) : List String := m.nullableAfter (m.nodes.size + 1) []

end Model

end GrammarKit
