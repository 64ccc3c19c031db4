import GrammarKit.Model.FirstSymbols
import GrammarKit.Proofs.Model.Nullable

/-!
# What can come first

What can come first in a node are the elements of a deduction that stand behind nodes that match
the empty text only, and the members of a union.

* `mem_distinct`, `nodup_distinct`: lists without repeats.
* `Model.CanStart`: a node that can come first in another one.
* `Model.mem_successors`: the nodes that can come first in a node are found.
-/

namespace GrammarKit

/-! ## Lists without repeats -/

theorem mem_distinct {xs : List String} {x : String} : x ∈ distinct xs ↔ x ∈ xs := by
  induction xs with
  | nil => exact Iff.rfl
  | cons y xs ih =>
    by_cases h : x = y
    · simp [distinct, h]
    · simp [distinct, ih, h]

theorem nodup_distinct (xs : List String) : (distinct xs).Nodup := by
  induction xs with
  | nil => exact List.nodup_nil
  | cons x xs ih => exact List.nodup_cons.2 ⟨by simp, ih.filter _⟩

namespace Model

variable {m : Model}

/-! ## First symbols -/

/-- What stands behind elements that match the empty text can come first. -/
theorem mem_leadingTargets {nullable front back : List String} {x : String}
    (h : ∀ y ∈ front, y ∈ nullable) : x ∈ leadingTargets nullable (front ++ x :: back) := by
  induction front with
  | nil =>
    rw [List.nil_append, leadingTargets]
    split
    · exact List.mem_cons_self
    · exact List.mem_singleton_self x
  | cons y front ih =>
    obtain ⟨hy, hfront⟩ := List.forall_mem_cons.1 h
    rw [List.cons_append, leadingTargets, if_pos hy]
    exact List.mem_cons_of_mem _ (ih hfront)

/-- **A node that can come first in another one.** -/
def CanStart (m : Model) (y x : String) : Prop :=
  ∃ n, m.node? x = some n ∧ y ∈ m.firstIn m.nullable n ∧ y ∈ m.names

/-- An element of a deduction can come first, if those in front of it match the empty text. -/
theorem canStart_of_deduction {name x : String} {n : Node} {elements : List Element}
    {front back : List String} (hn : m.node? name = some n) (hb : n.body = .deduction elements)
    (hrow : elements.map Element.target = front ++ x :: back) (hfront : ∀ y ∈ front, y ∈ m.nullable)
    (hx : x ∈ m.names) : m.CanStart x name := by
  refine ⟨n, hn, ?_, hx⟩
  rw [firstIn, hb]
  refine mem_distinct.2 (List.mem_filter.2 ⟨?_, has_iff.2 hx⟩)
  exact hrow ▸ mem_leadingTargets hfront

/-- Each member of a union can come first. -/
theorem canStart_of_union {name x : String} {n : Node} {members : List String}
    (hn : m.node? name = some n) (hb : n.body = .union members) (hmem : x ∈ members)
    (hx : x ∈ m.names) : m.CanStart x name := by
  refine ⟨n, hn, ?_, hx⟩
  rw [firstIn, hb]
  exact mem_distinct.2 (List.mem_filter.2 ⟨hmem, has_iff.2 hx⟩)

/-- Names that are not defined cannot come first. -/
theorem mem_names_of_mem_firstIn {nullable : List String} {n : Node} {y : String}
    (h : y ∈ m.firstIn nullable n) : y ∈ m.names := by
  rw [firstIn] at h
  split at h
  · cases h
  · exact has_iff.1 (List.mem_filter.1 (mem_distinct.1 h)).2
  · exact has_iff.1 (List.mem_filter.1 (mem_distinct.1 h)).2

/-- **The nodes that can come first in a node are found.** -/
theorem mem_successors {x y : String} : y ∈ m.successors x ↔ m.CanStart y x := by
  rw [successors, CanStart, firstSymbols]
  simp only [Table.get?_map]
  cases hn : m.node? x with
  | none => simp [show m.nodes.get? x = none from hn]
  | some n => simpa [show m.nodes.get? x = some n from hn] using mem_names_of_mem_firstIn

end Model

end GrammarKit
