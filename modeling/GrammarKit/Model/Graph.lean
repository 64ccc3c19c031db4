/-!
# Walks in a graph of names

A graph is given by the successors of each name, inside a finite stock of names.

* `Graph.walk`: the names of the stock that a depth-first walk meets, each once, in the order
  in which it meets them.
-/

namespace GrammarKit.Graph

/-- Meeting a name takes it from those that are not met. -/
theorem filter_notMem_concat (all visited : List String) (x : String) :
    all.filter (· ∉ visited ++ [x]) = (all.filter (· ∉ visited)).filter (· != x) := by
  rw [List.filter_filter]
  refine List.filter_congr fun y _ => ?_
  by_cases hy : y ∈ visited <;> by_cases hyx : y = x <;> simp_all

theorem length_filter_lt {all visited : List String} {x : String} (hx : x ∈ all)
    (hv : x ∉ visited) :
    (all.filter (· ∉ visited ++ [x])).length < (all.filter (· ∉ visited)).length := by
  rw [filter_notMem_concat, List.length_filter_lt_length_iff_exists]
  exact ⟨x, by simp [hx, hv], by simp⟩

/-- The depth-first walk that has yet to meet the names of `stack`, in this order, and has met
those of `visited`. Names outside the stock are passed over. -/
def walk (next : String → List String) (all : List String) (stack visited : List String) :
    List String :=
  match stack with
  | [] => visited
  | x :: stack =>
    if _ : x ∈ all ∧ x ∉ visited then
      walk next all (next x ++ stack) (visited ++ [x])
    else walk next all stack visited
termination_by ((all.filter (· ∉ visited)).length, stack.length)
decreasing_by
  · rename_i h
    exact Prod.Lex.left _ _ (length_filter_lt h.1 h.2)
  · exact Prod.Lex.right _ (Nat.lt_succ_self _)

/-- The names met by a walk that starts at `x`. -/
def reachedFrom (next : String → List String) (all : List String) (x : String) : List String :=
  walk next all [x] []

end GrammarKit.Graph
