import GrammarKit.Proofs.Model.Components
import GrammarKit.Proofs.Model.FirstSymbols
import Mathlib.Data.List.Perm.Basic
import Mathlib.Order.WellFoundedSet

/-!
# Cycles of first symbols

The groups of nodes that lead to each other are the components that have a cycle, and the nodes
that lead back to themselves are those of the groups. A model without left-recursive nodes leads
from each node to its first symbols along paths that all end.

* `Graph.isCycle_iff`: a component has a cycle if and only if its names lead back to themselves.
* `Model.sublist_names`: nodes in order and without repeats form a part of the model.
* **`Model.same_leftCycle_iff_transGen`**: the groups are the cyclic part of what first symbols lead
  to.
* **`Model.canStart_induct`**: induction along first symbols, where no node is left-recursive.
-/

namespace GrammarKit

open Relation (TransGen)

/-- **A component has a cycle if and only if its names lead back to themselves.** -/
theorem Graph.isCycle_iff {next : String → List String} {names : List String}
    (hnext : ∀ x, ∀ y ∈ next x, y ∈ names) {c : List String}
    (hc : c ∈ Graph.components next names) {x : String} (hx : x ∈ c) :
    Model.isCycle next c = true ↔ TransGen (Graph.Edge next) x x := by
  have hmem (y : String) : y ∈ c ↔ Graph.Leads next x y ∧ Graph.Leads next y x :=
    Graph.mem_component_iff hnext hc hx
  have hnodup := (List.nodup_flatten.1 (Graph.nodup_flatten_components hnext)).1 c hc
  match c, hmem, hnodup, hx with
  | [z], hmem, _, hx =>
    obtain rfl := List.mem_singleton.1 hx
    rw [Model.isCycle, List.contains_iff_mem]
    refine ⟨fun hstep => .single hstep, fun hcycle => ?_⟩
    obtain ⟨y, hxy, hyx⟩ := TransGen.head'_iff.1 hcycle
    have hy : y ∈ [x] := (hmem y).2 ⟨.single hxy, hyx⟩
    exact List.mem_singleton.1 hy ▸ hxy
  | z :: w :: c, hmem, hnodup, hx =>
    -- Another name of the component is on the way back.
    refine iff_of_true rfl ?_
    obtain ⟨y, hy, hne⟩ : ∃ y ∈ z :: w :: c, y ≠ x := by
      have hzw : z ≠ w := fun e => by simp [e] at hnodup
      by_cases hzx : z = x
      · exact ⟨w, by simp, fun hwx => hzw (hzx.trans hwx.symm)⟩
      · exact ⟨z, by simp, hzx⟩
    obtain ⟨hxy, hyx⟩ := (hmem y).1 hy
    exact ((Relation.reflTransGen_iff_eq_or_transGen.1 hxy).resolve_left hne).trans_left hyx

namespace Model

variable {m : Model}

/-! ## The order of the nodes -/

theorem nodup_names : m.names.Nodup := m.nodes.nodup

theorem pairwise_names : m.names.Pairwise fun x y => m.inOrder x y = true := by
  rw [List.pairwise_iff_getElem]
  intro i j hi hj hij
  simp [inOrder, nodup_names.idxOf_getElem, Nat.le_of_lt hij]

/-- **Nodes in order and without repeats form a part of the model.** -/
theorem sublist_names {c : List String} (hnodup : c.Nodup) (hsub : c ⊆ m.names)
    (horder : c.Pairwise fun x y => m.inOrder x y = true) : c.Sublist m.names := by
  have hperm : c.Perm (m.names.filter (· ∈ c)) := by
    refine (List.perm_ext_iff_of_nodup hnodup (nodup_names.filter _)).2 fun x => ?_
    simpa only [List.mem_filter, decide_eq_true_eq, iff_and_self] using fun hx => hsub hx
  have heq : c = m.names.filter (· ∈ c) := by
    refine hperm.eq_of_pairwise (fun x y hx hy hxy hyx => ?_) horder (pairwise_names.filter _)
    simp only [inOrder, decide_eq_true_eq] at hxy hyx
    exact (List.idxOf_inj (hsub hx)).1 (Nat.le_antisymm hxy hyx)
  exact heq ▸ List.filter_sublist

theorem inOrder_trans (x y z : String) (hxy : m.inOrder x y = true) (hyz : m.inOrder y z = true) :
    m.inOrder x z = true := by
  simp only [inOrder, decide_eq_true_eq] at *
  omega

theorem inOrder_total (x y : String) : (m.inOrder x y || m.inOrder y x) = true := by
  simp only [inOrder, Bool.or_eq_true, decide_eq_true_eq]
  omega

/-! ## Cycles -/

/-- The steps lead from a node to what can come first in it. -/
theorem edge_successors : Graph.Edge m.successors = fun x y => m.CanStart y x :=
  funext₂ fun _ _ => propext mem_successors

theorem mem_names_of_mem_successors (x : String) : ∀ y ∈ m.successors x, y ∈ m.names :=
  fun _ hy => (mem_successors.1 hy).choose_spec.2.2

/-- The components that have a cycle, in the order in which they are found. -/
def cycles (m : Model) : List (List String) :=
  (Graph.components m.successors m.names).filter (isCycle m.successors)

theorem nodup_flatten_cycles : m.cycles.flatten.Nodup :=
  (Graph.nodup_flatten_components mem_names_of_mem_successors).sublist List.filter_sublist.flatten

theorem mem_cycles {c : List String} : c ∈ m.cycles ↔
    c ∈ Graph.components m.successors m.names ∧ isCycle m.successors c = true := List.mem_filter

theorem mem_leftCycles {c : List String} :
    c ∈ m.leftCycles ↔ ∃ d ∈ m.cycles, d.mergeSort m.inOrder = c := by
  rw [leftCycles, List.mem_mergeSort, List.mem_map]
  rfl

/-- Nodes share a group if and only if they lead to each other. -/
theorem exists_mem_leftCycles {x y : String} :
    (∃ c ∈ m.leftCycles, x ∈ c ∧ y ∈ c) ↔
      TransGen (Graph.Edge m.successors) x y ∧ TransGen (Graph.Edge m.successors) y x := by
  have hnext := mem_names_of_mem_successors (m := m)
  constructor
  · rintro ⟨c, hc, hx, hy⟩
    obtain ⟨d, hd, rfl⟩ := mem_leftCycles.1 hc
    obtain ⟨hd, hcycle⟩ := mem_cycles.1 hd
    rw [List.mem_mergeSort] at hx hy
    obtain ⟨hxy, hyx⟩ := (Graph.mem_component_iff hnext hd hx).1 hy
    exact ⟨((Graph.isCycle_iff hnext hd hx).1 hcycle).trans_left hxy,
      ((Graph.isCycle_iff hnext hd hy).1 hcycle).trans_left hyx⟩
  · rintro ⟨hxy, hyx⟩
    obtain ⟨z, -, hzx⟩ := TransGen.tail'_iff.1 hyx
    obtain ⟨d, hd, hx⟩ :=
      List.mem_flatten.1 ((Graph.mem_flatten_components hnext).2 (hnext z x hzx))
    have hcycle := (Graph.isCycle_iff hnext hd hx).2 (hxy.trans hyx)
    have hy : y ∈ d := (Graph.mem_component_iff hnext hd hx).2
      ⟨hxy.to_reflTransGen, hyx.to_reflTransGen⟩
    exact ⟨_, mem_leftCycles.2 ⟨d, mem_cycles.2 ⟨hd, hcycle⟩, rfl⟩,
      List.mem_mergeSort.2 hx, List.mem_mergeSort.2 hy⟩

theorem disjoint_leftCycles : m.leftCycles.Pairwise List.Disjoint := by
  have hsorted (c : List String) : ∀ x, x ∈ c.mergeSort m.inOrder ↔ x ∈ c :=
    fun _ => List.mem_mergeSort
  refine (List.mergeSort_perm _ _).symm.pairwise ?_ List.Disjoint.symm
  refine List.pairwise_map.2 ((List.nodup_flatten.1 nodup_flatten_cycles).2.imp ?_)
  intro c d hdisjoint x hx hy
  exact hdisjoint ((hsorted c x).1 hx) ((hsorted d x).1 hy)

/-- A group lists some of the nodes, in model order. -/
theorem sublist_of_mem_leftCycles {c : List String} (hc : c ∈ m.leftCycles) :
    c ≠ [] ∧ c.Nodup ∧ c.Sublist m.names := by
  have hnext := mem_names_of_mem_successors (m := m)
  obtain ⟨d, hd, rfl⟩ := mem_leftCycles.1 hc
  have hmem := (mem_cycles.1 hd).1
  have hnodup : (d.mergeSort m.inOrder).Nodup :=
    (List.mergeSort_perm _ _).nodup_iff.2 ((List.nodup_flatten.1 nodup_flatten_cycles).1 d hd)
  refine ⟨fun hnil => Graph.ne_nil_of_mem_components hnext hmem ?_, hnodup,
    sublist_names hnodup (fun x hx => ?_) (List.pairwise_mergeSort inOrder_trans inOrder_total d)⟩
  · exact List.nil_perm.1 (hnil ▸ List.mergeSort_perm d m.inOrder)
  · exact (Graph.mem_flatten_components hnext).1
      (List.mem_flatten.2 ⟨d, hmem, List.mem_mergeSort.1 hx⟩)

/-- The groups are in the order of their first nodes. -/
theorem sublist_heads : (m.leftCycles.filterMap List.head?).Sublist m.names := by
  have hhead {c : List String} (hc : c ∈ m.leftCycles) {x : String} (hx : c.head? = some x) :
      x ∈ c ∧ c.headD "" = x := by
    refine ⟨List.mem_of_mem_head? hx, ?_⟩
    rw [List.headD_eq_head?_getD, hx, Option.getD_some]
  refine sublist_names ?_ (fun x hx => ?_) ?_
  · refine List.pairwise_filterMap.2 (disjoint_leftCycles.imp_of_mem fun hc hd hdisjoint => ?_)
    rintro x hx y hy rfl
    exact hdisjoint (hhead hc hx).1 (hhead hd hy).1
  · obtain ⟨c, hc, hx⟩ := List.mem_filterMap.1 hx
    exact (sublist_of_mem_leftCycles hc).2.2.subset (hhead hc hx).1
  · have horder : m.leftCycles.Pairwise fun c d => m.inOrder (c.headD "") (d.headD "") = true :=
      List.pairwise_mergeSort (fun c d e => inOrder_trans (c.headD "") (d.headD "") (e.headD ""))
        (fun c d => inOrder_total (c.headD "") (d.headD "")) _
    refine List.pairwise_filterMap.2 (horder.imp_of_mem fun hc hd hcd => ?_)
    intro x hx y hy
    rwa [(hhead hc hx).2, (hhead hd hy).2] at hcd

theorem mem_leftRecursive {x : String} :
    x ∈ m.leftRecursive ↔ ∃ c ∈ m.leftCycles, x ∈ c := by
  rw [leftRecursive, List.mem_filter, decide_eq_true_eq, List.mem_flatten, and_iff_right_iff_imp]
  rintro ⟨c, hc, hx⟩
  exact (sublist_of_mem_leftCycles hc).2.2.subset hx

/-- **The groups are the cyclic part of what first symbols lead to**, whether or not all references
are to nodes: nodes share a group if and only if each leads to the other, and a node is in a group
if and only if it leads back to itself. The groups are disjoint, each lists its nodes in model
order, and they come in the order of their first nodes. The left-recursive nodes are those of the
groups, in model order. -/
theorem same_leftCycle_iff_transGen (m : Model) :
    (∀ x y, (∃ c ∈ m.leftCycles, x ∈ c ∧ y ∈ c) ↔
      TransGen (Graph.Edge m.successors) x y ∧ TransGen (Graph.Edge m.successors) y x) ∧
    (∀ x, (∃ c ∈ m.leftCycles, x ∈ c) ↔ TransGen (Graph.Edge m.successors) x x) ∧
    m.leftCycles.Pairwise List.Disjoint ∧
    (∀ c ∈ m.leftCycles, c ≠ [] ∧ c.Nodup ∧ c.Sublist m.names) ∧
    (m.leftCycles.filterMap List.head?).Sublist m.names ∧
    m.leftRecursive.Sublist m.names ∧
    ∀ x, x ∈ m.leftRecursive ↔ ∃ c ∈ m.leftCycles, x ∈ c := by
  refine ⟨fun _ _ => exists_mem_leftCycles, fun x => ?_, disjoint_leftCycles,
    fun _ => sublist_of_mem_leftCycles, sublist_heads, List.filter_sublist,
    fun _ => mem_leftRecursive⟩
  simpa using exists_mem_leftCycles (x := x) (y := x) (m := m)

/-! ## Models without left recursion -/

/-- No node is left-recursive exactly if none leads back to itself. -/
theorem leftRecursive_eq_nil_iff :
    m.leftRecursive = [] ↔ ∀ x, ¬ TransGen (fun a b => m.CanStart b a) x x := by
  rw [List.eq_nil_iff_forall_not_mem]
  refine forall_congr' fun x => not_congr ?_
  rw [mem_leftRecursive, ← edge_successors]
  simpa using exists_mem_leftCycles (x := x) (y := x) (m := m)

/-- Where first symbols have a lower rank, no node is left-recursive. -/
theorem leftRecursive_eq_nil_of_rank (rank : String → Nat)
    (h : ∀ e ∈ m.nodes.entries, ∀ y ∈ m.firstIn m.nullable e.2, rank y < rank e.1) :
    m.leftRecursive = [] := by
  have hstep {x y : String} (hstart : m.CanStart y x) : rank y < rank x := by
    obtain ⟨n, hn, hy, -⟩ := hstart
    exact h (x, n) (node?_eq_some_iff.1 hn) y hy
  have hrank {x y : String} (hxy : TransGen (fun a b => m.CanStart b a) x y) :
      rank y < rank x := by
    induction hxy with
    | single hstart => exact hstep hstart
    | tail _ hstart ih => exact (hstep hstart).trans ih
  exact leftRecursive_eq_nil_iff.2 fun x hcycle => Nat.lt_irrefl _ (hrank hcycle)

/-- **Induction along first symbols**, where no node is left-recursive. -/
theorem canStart_induct (h : m.leftRecursive = []) {P : String → Prop}
    (step : ∀ x ∈ m.names, (∀ y ∈ m.names, m.CanStart y x → P y) → P x) : ∀ x ∈ m.names, P x := by
  let before (y x : String) : Prop := TransGen (fun a b => m.CanStart b a) x y
  have : IsStrictOrder String before :=
    { irrefl := leftRecursive_eq_nil_iff.1 h
      trans := fun _ _ _ hxy hyz => hyz.trans hxy }
  have hwf : {x | x ∈ m.names}.WellFoundedOn before := (List.finite_toSet m.names).wellFoundedOn
  intro x hx
  exact hwf.induction hx fun x hx ih => step x hx fun y hy hyx => ih y hy (.single hyx)

end Model

end GrammarKit
