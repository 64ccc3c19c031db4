import GrammarKit.Model.Reachability
import GrammarKit.Proofs.Model.Valid
import Mathlib.Data.List.Nodup
import Mathlib.Logic.Function.Iterate
import Mathlib.Logic.Relation

/-!
# Walks meet what can be reached

A depth-first walk meets exactly the names that steps inside the stock of names lead to. The walk
takes in what it has met so far and what it has yet to meet; along it, whatever it has met since
it started leads to names that it meets as well. Each turn takes one name from the stack, and a
name is put there once for each time that a name which is met leads to it. So the walk comes to an
end after no more turns than there are steps, and one for the name at which it starts.

* `Graph.Step`: a step inside the stock.
* **`Graph.mem_reachedFrom`**: a walk meets what can be reached, and nothing else.
* `Graph.turn`, `Graph.exists_turns_reachedFrom`: a walk ends, turn after turn.
* `Model.mem_concreteTypes_of_member`: a union stands for what its members stand for.
* `Model.Refers`: references between nodes.
* **`Model.mem_unreachable_iff`**: the unreachable nodes are those that no path of references from
  the start node leads to.
-/

namespace GrammarKit.Graph

variable {next : String → List String} {all : List String}

/-- A step from one name to another, inside the stock of names. -/
def Step (next : String → List String) (all : List String) (x y : String) : Prop :=
  y ∈ next x ∧ y ∈ all

theorem subset_walk (stack visited : List String) : visited ⊆ walk next all stack visited := by
  fun_induction walk next all stack visited with
  | case1 visited => exact fun _ => id
  | case2 visited x stack h ih => exact fun y hy => ih (List.mem_append_left _ hy)
  | case3 visited x stack h ih => exact ih

theorem mem_walk_of_mem_stack {stack visited : List String} {y : String} (hy : y ∈ stack)
    (hall : y ∈ all) : y ∈ walk next all stack visited := by
  fun_induction walk next all stack visited with
  | case1 visited => cases hy
  | case2 visited x stack h ih =>
    rcases List.mem_cons.1 hy with rfl | hy
    · exact subset_walk _ _ (List.mem_append_right _ (List.mem_singleton_self y))
    · exact ih (List.mem_append_right _ hy)
  | case3 visited x stack h ih =>
    rcases List.mem_cons.1 hy with rfl | hy
    · exact subset_walk _ _ (by simpa [hall] using h)
    · exact ih hy

/-- What the walk meets on its way leads to names that it meets as well. -/
theorem walk_closed {stack visited : List String} {x y : String}
    (hx : x ∈ walk next all stack visited) (hv : x ∉ visited) (hstep : Step next all x y) :
    y ∈ walk next all stack visited := by
  fun_induction walk next all stack visited with
  | case1 visited => exact absurd hx hv
  | case2 visited z stack h ih =>
    by_cases hz : x = z
    · subst hz
      exact mem_walk_of_mem_stack (List.mem_append_left _ hstep.1) hstep.2
    · exact ih hx (by simpa [hz] using hv)
  | case3 visited z stack h ih => exact ih hx hv

theorem reaches_of_mem_walk {stack visited : List String} {y : String}
    (hy : y ∈ walk next all stack visited) :
    y ∈ visited ∨ ∃ x ∈ stack, x ∈ all ∧ Relation.ReflTransGen (Step next all) x y := by
  fun_induction walk next all stack visited with
  | case1 visited => exact .inl hy
  | case2 visited x stack h ih =>
    rcases ih hy with hy | ⟨z, hz, hall, hreach⟩
    · rcases List.mem_append.1 hy with hy | hy
      · exact .inl hy
      · obtain rfl := List.mem_singleton.1 hy
        exact .inr ⟨y, List.mem_cons_self, h.1, .refl⟩
    · rcases List.mem_append.1 hz with hz | hz
      · exact .inr ⟨x, List.mem_cons_self, h.1, .head ⟨hz, hall⟩ hreach⟩
      · exact .inr ⟨z, List.mem_cons_of_mem _ hz, hall, hreach⟩
  | case3 visited x stack h ih =>
    exact (ih hy).imp_right fun ⟨z, hz, hreach⟩ => ⟨z, List.mem_cons_of_mem _ hz, hreach⟩

/-- **A walk meets what can be reached**, and nothing else. -/
theorem mem_reachedFrom {x y : String} :
    y ∈ reachedFrom next all x ↔ x ∈ all ∧ Relation.ReflTransGen (Step next all) x y := by
  constructor
  · intro hy
    obtain hy | ⟨z, hz, hreach⟩ := reaches_of_mem_walk hy
    · cases hy
    · exact List.mem_singleton.1 hz ▸ hreach
  · rintro ⟨hx, hreach⟩
    induction hreach with
    | refl => exact mem_walk_of_mem_stack (List.mem_singleton_self x) hx
    | tail _ hstep ih => exact walk_closed ih List.not_mem_nil hstep

/-! ## Turn after turn -/

/-- **One turn of a walk**: the name on top of the stack is met, or passed over. -/
def turn (next : String → List String) (all : List String) :
    List String × List String → List String × List String
  | ([], visited) => ([], visited)
  | (x :: stack, visited) =>
    if x ∈ all ∧ x ∉ visited then (next x ++ stack, visited ++ [x]) else (stack, visited)

/-- How many steps lead on from the names of a list. -/
def stepCount (next : String → List String) (names : List String) : Nat :=
  (names.flatMap next).length

variable (next) in
/-- The steps from a name that is met are no longer ahead. -/
theorem stepCount_meet {visited : List String} {x : String} (hall : all.Nodup) (hx : x ∈ all)
    (hv : x ∉ visited) :
    (next x).length + stepCount next (all.filter (· ∉ visited ++ [x])) =
      stepCount next (all.filter (· ∉ visited)) := by
  have hmem : x ∈ all.filter (· ∉ visited) := by simp [hx, hv]
  have hsteps := ((List.perm_cons_erase hmem).flatMap_right next).length_eq
  rw [List.flatMap_cons, List.length_append] at hsteps
  rw [filter_notMem_concat, ← (hall.filter _).erase_eq_filter]
  exact hsteps.symm

variable (next) in
/-- Each turn takes a name from the stack, or exchanges it for the steps that lead on from it. -/
theorem exists_turns (hall : all.Nodup) (stack visited : List String) :
    ∃ n ≤ stack.length + stepCount next (all.filter (· ∉ visited)),
      (turn next all)^[n] (stack, visited) = ([], walk next all stack visited) := by
  fun_induction walk next all stack visited with
  | case1 visited => exact ⟨0, Nat.zero_le _, rfl⟩
  | case2 visited x stack h ih =>
    obtain ⟨n, hn, hturns⟩ := ih
    have hcount := stepCount_meet next hall h.1 h.2
    rw [List.length_append] at hn
    refine ⟨n + 1, by rw [List.length_cons]; omega, ?_⟩
    rw [Function.iterate_succ_apply, turn, if_pos h, hturns]
  | case3 visited x stack h ih =>
    obtain ⟨n, hn, hturns⟩ := ih
    refine ⟨n + 1, by rw [List.length_cons]; omega, ?_⟩
    rw [Function.iterate_succ_apply, turn, if_neg h, hturns]

/-- **A walk comes to an end** after at most a turn for each step and one for its start. -/
theorem exists_turns_reachedFrom (hall : all.Nodup) (x : String) :
    ∃ n ≤ stepCount next all + 1,
      (turn next all)^[n] ([x], []) = ([], reachedFrom next all x) := by
  simpa [reachedFrom, Nat.add_comm] using exists_turns next hall [x] []

/-- What a walk meets can be told by turning often enough. -/
theorem reachedFrom_eq_turns (hall : all.Nodup) (x : String) :
    reachedFrom next all x = ((turn next all)^[stepCount next all + 1] ([x], [])).2 := by
  obtain ⟨n, hn, hturns⟩ : ∃ n ≤ stepCount next all + 1,
      (turn next all)^[n] ([x], []) = ([], reachedFrom next all x) := exists_turns_reachedFrom hall x
  rw [← Nat.sub_add_cancel hn, Function.iterate_add_apply, hturns,
    Function.iterate_fixed (f := turn next all) rfl]

end GrammarKit.Graph

namespace GrammarKit.Model

variable {m : Model}

/-- A token or a deduction stands for itself. -/
theorem mem_concreteTypes_self {name : String} (h : m.isConcrete name = true) :
    name ∈ m.concreteTypes name := by
  have hnode : m.has name = true := by
    rw [isConcrete, kindOf?] at h
    rw [has_iff_node?]
    cases hn : m.node? name with
    | none => simp [hn] at h
    | some n => exact ⟨n, rfl⟩
  exact List.mem_filter.2 ⟨Graph.mem_reachedFrom.2 ⟨has_iff.1 hnode, .refl⟩, h⟩

/-- A union stands for what its members stand for. -/
theorem mem_concreteTypes_of_member {name x type : String} {n : Node} {members : List String}
    (hn : m.node? name = some n) (hb : n.body = .union members) (hx : x ∈ members)
    (h : type ∈ m.concreteTypes x) : type ∈ m.concreteTypes name := by
  obtain ⟨hreach, hconcrete⟩ := List.mem_filter.1 h
  obtain ⟨hall, hreach⟩ := Graph.mem_reachedFrom.1 hreach
  have hstep : Graph.Step m.membersOf m.names name x := by
    refine ⟨?_, hall⟩
    rw [membersOf, hn, Option.map_some, hb]
    exact hx
  exact List.mem_filter.2
    ⟨Graph.mem_reachedFrom.2 ⟨has_iff.1 (has_iff_node?.2 ⟨n, hn⟩), .head hstep hreach⟩, hconcrete⟩

theorem isConcrete_token {name : String} {n : Node} {pattern : Pattern}
    (hn : m.node? name = some n) (hb : n.body = .token pattern) : m.isConcrete name = true := by
  simp [isConcrete, kindOf?, hn, Node.kind, hb]

theorem isConcrete_deduction {name : String} {n : Node} {elements : List Element}
    (hn : m.node? name = some n) (hb : n.body = .deduction elements) :
    m.isConcrete name = true := by
  simp [isConcrete, kindOf?, hn, Node.kind, hb]

/-! ## Nodes that are not reached -/

/-- **A node refers to another one**, as the target of an element or as a member. References to
missing nodes do not count. -/
def Refers (m : Model) (x y : String) : Prop :=
  y ∈ m.names ∧ ∃ n, m.node? x = some n ∧
    match n.body with
    | .token _ => False
    | .deduction elements => ∃ e ∈ elements, e.target = y
    | .union members => y ∈ members

theorem step_referencesOf : Graph.Step m.referencesOf m.names = m.Refers := by
  funext x y
  rw [Graph.Step, Refers, referencesOf, and_comm]
  cases hn : m.node? x with
  | none => simp
  | some n => cases hb : n.body <;> simp [Node.references, hb]

/-- **The unreachable nodes are those that no path of references from the start node leads to**, be
the start and the references to nodes or not, each once and in model order. The walk that meets the
others ends after at most a turn for each reference and one for the start. -/
theorem mem_unreachable_iff (m : Model) :
    (∀ x, x ∈ m.unreachable ↔
      x ∈ m.names ∧ ¬ (m.start ∈ m.names ∧ Relation.ReflTransGen m.Refers m.start x)) ∧
    m.unreachable.Sublist m.names ∧ m.unreachable.Nodup ∧
    ∃ n ≤ Graph.stepCount m.referencesOf m.names + 1,
      (Graph.turn m.referencesOf m.names)^[n] ([m.start], []) = ([], m.reachable) := by
  have hnodup : m.names.Nodup := m.nodes.nodup
  refine ⟨fun x => ?_, List.filter_sublist, hnodup.filter _,
    Graph.exists_turns_reachedFrom hnodup m.start⟩
  rw [unreachable, List.mem_filter, decide_eq_true_eq, reachable, Graph.mem_reachedFrom,
    step_referencesOf]

end GrammarKit.Model
