import GrammarKit.Table

/-!
# Components of a graph of names

Names that lead to each other form a component. Tarjan's algorithm finds all of them in one
depth-first visit: names are numbered as they are met, and they stay on a stack until their
component is complete. The low number of a name is the lowest one that it is known to lead back to;
a name that leads back no further than to itself completes the component of all above it.

* `Graph.Finder`: the state of the visit.
* `Graph.Finder.enter`, `Graph.Finder.follow`, `Graph.Finder.leave`: the steps of a visit.
* `Graph.Finder.visit`: the visit of a name and of all that it leads to.
* `Graph.components`: the components of a graph.
-/

namespace GrammarKit.Graph

/-- **The state of a visit.** -/
structure Finder where
  /-- The numbers of the names met so far. -/
  index : Table Nat := ∅
  /-- The lowest numbers that names are known to lead back to. -/
  low : Table Nat := ∅
  /-- The names on the stack, in any order. -/
  onStack : List String := []
  /-- The names whose component is not complete, the latest first. -/
  stack : List String := []
  nextIndex : Nat := 0
  components : List (List String) := []

namespace Finder

/-- Whether a name was met. -/
def hasMet (f : Finder) (x : String) : Bool := f.index.contains x

/-- The number of a name. -/
def indexOf (f : Finder) (x : String) : Nat := (f.index.get? x).getD 0

/-- The low number of a name. -/
def lowOf (f : Finder) (x : String) : Nat := (f.low.get? x).getD 0

/-- Meets a name. -/
def enter (f : Finder) (x : String) : Finder :=
  { f with
    index := f.index.insert x f.nextIndex
    low := f.low.insert x f.nextIndex
    nextIndex := f.nextIndex + 1
    stack := x :: f.stack
    onStack := x :: f.onStack }

/-- The name `x` is found to lead back to the number `n`. -/
def lower (f : Finder) (x : String) (n : Nat) : Finder :=
  { f with low := f.low.insert x (min (f.lowOf x) n) }

/-- Follows the step from `x` to `y`; `visit` goes on with names not met yet. -/
def follow (visit : String → Finder → Finder) (x : String) (f : Finder) (y : String) : Finder :=
  if !f.hasMet y then
    let f := visit y f
    f.lower x (f.lowOf y)
  else if y ∈ f.onStack then f.lower x (f.indexOf y)
  else f

/-- The names of a stack up to `x`, and those below. -/
def popTo (x : String) : List String → List String × List String
  | [] => ([], [])
  | y :: stack =>
    if y = x then ([y], stack)
    else
      let (component, stack) := popTo x stack
      (y :: component, stack)

/-- Completes the component of a name that leads back no further than to itself. -/
def leave (f : Finder) (x : String) : Finder :=
  if f.lowOf x = f.indexOf x then
    let (component, stack) := popTo x f.stack
    { f with
      stack
      onStack := f.onStack.filter (· ∉ component)
      components := f.components ++ [component] }
  else f

/-- **The visit of a name** and of all that it leads to, through fewer than `n` names one below the
other. -/
def visit (next : String → List String) : (n : Nat) → String → Finder → Finder
  | 0, _, f => f
  | n + 1, x, f => ((next x).foldl (follow (visit next n) x) (f.enter x)).leave x

/-- The visit of a name, unless it was met already. -/
def visitNew (next : String → List String) (n : Nat) (f : Finder) (x : String) : Finder :=
  if f.hasMet x then f else visit next n x f

end Finder

/-- **The components of a graph**, in the order in which they are complete. -/
def components (next : String → List String) (names : List String) : List (List String) :=
  (names.foldl (Finder.visitNew next names.length) {}).components

end GrammarKit.Graph
