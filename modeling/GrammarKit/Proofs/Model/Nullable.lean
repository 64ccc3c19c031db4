import GrammarKit.Model.Nullable
import GrammarKit.Proofs.Model.Valid
import Mathlib.Data.List.Induction
import Mathlib.Data.List.Nodup
import Mathlib.Data.List.Perm.Subperm
import Mathlib.Logic.Function.Iterate
import Mathlib.Order.Bounds.Defs

/-!
# The nodes that match the empty text

The passes that look for nodes that match the empty text add a node when it matches the empty text
given those that were found before it. They stop when there is none left to add, which takes no more
passes than there are nodes, and what they have found by then is the least set of names that takes
in all nodes that match the empty text given the set.

* `Body.MatchesEmpty`: when a node matches the empty text, given the names that do.
* `Model.IsFounded`: lists of nodes each of which matches the empty text given those before it.
* **`Model.mem_nullable`**, `Model.selfNullable_nullable`: the nodes that match the empty text are
  found, and no others.
* **`Model.isLeast_nullable`**: the passes end with the least such set.
-/

namespace GrammarKit

/-! ## One node -/

/-- **When a node matches the empty text**, given the names in `S`: a token by its own pattern, a
deduction if all its elements are in `S`, a union if one of its members is. -/
def Body.MatchesEmpty (S : Set String) : Body → Prop
  | .token (.literal text) => text = ""
  | .token (.regex source) => patternNullable source = true
  | .deduction elements => ∀ e ∈ elements, e.target ∈ S
  | .union members => ∃ x ∈ members, x ∈ S

namespace Body

theorem nullableIn_iff {known : List String} {b : Body} :
    b.nullableIn known = true ↔ b.MatchesEmpty {x | x ∈ known} := by
  match b with
  | .token (.literal text) => exact decide_eq_true_iff
  | .token (.regex source) => exact Iff.rfl
  | .deduction elements => simp only [nullableIn, List.all_eq_true, decide_eq_true_eq]; rfl
  | .union members => simp only [nullableIn, List.any_eq_true, decide_eq_true_eq]; rfl

theorem MatchesEmpty.mono {S T : Set String} (h : S ⊆ T) {b : Body} (hb : b.MatchesEmpty S) :
    b.MatchesEmpty T := by
  match b, hb with
  | .token (.literal _), hb => exact hb
  | .token (.regex _), hb => exact hb
  | .deduction _, hb => exact fun e he => h (hb e he)
  | .union _, ⟨x, hx, hmem⟩ => exact ⟨x, hx, h hmem⟩

end Body

namespace Model

variable {m : Model} {known : List String}

/-! ## One pass -/

/-- What one entry adds in a pass. -/
def nullableStep (known : List String) (e : String × Node) : List String :=
  if e.1 ∈ known then known
  else if e.2.body.nullableIn known then known ++ [e.1] else known

theorem prefix_nullableStep (known : List String) (e : String × Node) :
    known <+: nullableStep known e := by
  rw [nullableStep]
  split
  · exact List.prefix_rfl
  · split
    · exact List.prefix_append _ _
    · exact List.prefix_rfl

theorem prefix_foldl_nullableStep (entries : List (String × Node)) (known : List String) :
    known <+: entries.foldl nullableStep known := by
  induction entries generalizing known with
  | nil => exact List.prefix_rfl
  | cons e entries ih => exact (prefix_nullableStep known e).trans (ih _)

/-- A pass that adds nothing has nothing left to add. -/
theorem mem_of_foldl_nullableStep {entries : List (String × Node)}
    (h : entries.foldl nullableStep known = known) {e : String × Node} (he : e ∈ entries)
    (hn : e.2.body.nullableIn known = true) : e.1 ∈ known := by
  induction entries with
  | nil => cases he
  | cons d entries ih =>
    rw [List.foldl_cons] at h
    have hd : nullableStep known d = known := by
      have hle := (prefix_foldl_nullableStep entries (nullableStep known d)).length_le
      rw [h] at hle
      exact ((prefix_nullableStep known d).eq_of_length_le hle).symm
    rw [hd] at h
    rcases List.mem_cons.1 he with rfl | he
    · by_contra hmem
      rw [nullableStep, if_neg hmem, if_pos hn] at hd
      exact List.cons_ne_nil _ _ (List.self_eq_append_right.1 hd.symm)
    · exact ih h he

/-! ## What the passes keep -/

/-- **A founded list of nodes**: none is there twice, and each matches the empty text given those
before it. -/
structure IsFounded (m : Model) (known : List String) : Prop where
  nodup : known.Nodup
  founded : ∀ front name back, known = front ++ name :: back →
    ∃ n, m.node? name = some n ∧ n.body.MatchesEmpty {x | x ∈ front}

namespace IsFounded

theorem nil : m.IsFounded [] where
  nodup := List.nodup_nil
  founded _ _ _ h := by simp at h

theorem concat (h : m.IsFounded known) {name : String} (hnew : name ∉ known) {n : Node}
    (hn : m.node? name = some n) (hb : n.body.MatchesEmpty {x | x ∈ known}) :
    m.IsFounded (known ++ [name]) where
  nodup := by
    rw [← List.concat_eq_append]
    exact h.nodup.concat hnew
  founded front x back hsplit := by
    rcases List.eq_nil_or_concat back with rfl | ⟨back, y, rfl⟩
    · obtain ⟨rfl, hx⟩ := List.append_inj' hsplit rfl
      cases hx
      exact ⟨n, hn, hb⟩
    · rw [List.concat_eq_append, ← List.cons_append, ← List.append_assoc] at hsplit
      exact h.founded front x back (List.append_inj' hsplit rfl).1

/-- The front of a founded list is founded. -/
theorem front {back : List String} (h : m.IsFounded (known ++ back)) : m.IsFounded known where
  nodup := h.nodup.sublist (List.sublist_append_left known back)
  founded front x middle hsplit := h.founded front x (middle ++ back) (by simp [hsplit])

/-- An entry of the model keeps the list founded. -/
theorem step (h : m.IsFounded known) {e : String × Node} (he : e ∈ m.nodes.entries) :
    m.IsFounded (nullableStep known e) := by
  rw [nullableStep]
  split
  · exact h
  · rename_i hnew
    split
    · rename_i hb
      exact h.concat hnew (node?_eq_some_iff.2 he) (Body.nullableIn_iff.1 hb)
    · exact h

theorem foldl {entries : List (String × Node)} (hentries : entries ⊆ m.nodes.entries)
    (h : m.IsFounded known) : m.IsFounded (entries.foldl nullableStep known) := by
  induction entries generalizing known with
  | nil => exact h
  | cons e entries ih =>
    obtain ⟨he, hentries⟩ := List.cons_subset.1 hentries
    exact ih hentries (h.step he)

theorem pass (h : m.IsFounded known) : m.IsFounded (m.nullablePass known) :=
  h.foldl (List.Subset.refl _)

theorem after (h : m.IsFounded known) (n : Nat) : m.IsFounded (m.nullableAfter n known) := by
  induction n generalizing known with
  | zero => exact h
  | succ n ih =>
    rw [nullableAfter]
    split
    · exact h
    · exact ih h.pass

theorem matchesEmpty (h : m.IsFounded known) {name : String} (hname : name ∈ known) :
    ∃ n, m.node? name = some n ∧ n.body.MatchesEmpty {x | x ∈ known} := by
  obtain ⟨front, back, rfl⟩ := List.append_of_mem hname
  obtain ⟨n, hn, hb⟩ := h.founded front name back rfl
  exact ⟨n, hn, hb.mono fun _ hx => List.mem_append_left _ hx⟩

theorem subset_names (h : m.IsFounded known) : known ⊆ m.names := fun _ hx => by
  obtain ⟨n, hn, -⟩ := h.matchesEmpty hx
  exact has_iff.1 (has_iff_node?.2 ⟨n, hn⟩)

theorem length_le (h : m.IsFounded known) : known.length ≤ m.nodes.size := by
  have hle := (List.subperm_of_subset h.nodup h.subset_names).length_le
  rwa [names, Table.keys, List.length_map] at hle

end IsFounded

/-! ## All passes -/

/-- The passes end with one that adds nothing. -/
theorem nullablePass_nullableAfter (h : m.IsFounded known) {n : Nat}
    (hn : m.nodes.size < known.length + n) :
    m.nullablePass (m.nullableAfter n known) = m.nullableAfter n known := by
  induction n generalizing known with
  | zero =>
    have := h.length_le
    omega
  | succ n ih =>
    have hfront : known <+: m.nullablePass known := prefix_foldl_nullableStep _ known
    rw [nullableAfter]
    split
    · rename_i hlength
      exact (hfront.eq_of_length hlength.symm).symm
    · rename_i hlength
      have := hfront.length_le
      exact ih h.pass (by omega)

/-- Each pass that is made but the last adds a node. -/
theorem exists_iterate_nullablePass (n : Nat) (known : List String) :
    ∃ k, m.nullablePass^[k] known = m.nullableAfter n known ∧
      known.length + k ≤ (m.nullableAfter n known).length := by
  induction n generalizing known with
  | zero => exact ⟨0, rfl, Nat.le_refl _⟩
  | succ n ih =>
    have hle : known.length ≤ (m.nullablePass known).length :=
      (prefix_foldl_nullableStep _ known).length_le
    rw [nullableAfter]
    split
    · exact ⟨0, rfl, Nat.le_refl _⟩
    · obtain ⟨k, hk, hlength⟩ := ih (m.nullablePass known)
      exact ⟨k + 1, hk, by omega⟩

theorem isFounded_nullable : m.IsFounded m.nullable := IsFounded.nil.after _

theorem nullablePass_nullable : m.nullablePass m.nullable = m.nullable :=
  nullablePass_nullableAfter .nil (by rw [List.length_nil]; omega)

/-- **A node that matches the empty text is found.** -/
theorem mem_nullable {name : String} {n : Node} (hn : m.node? name = some n)
    (h : n.body.nullableIn m.nullable = true) : name ∈ m.nullable :=
  mem_of_foldl_nullableStep nullablePass_nullable (node?_eq_some_iff.1 hn) h

/-- The nodes of a list match the empty text if those of the list do. -/
def SelfNullable (m : Model) (known : List String) : Prop :=
  ∀ x ∈ known, ∃ n, m.node? x = some n ∧ n.body.nullableIn known = true

/-- **Every node that is found matches the empty text**, given those that are found. -/
theorem selfNullable_nullable : m.SelfNullable m.nullable := fun _ hx => by
  obtain ⟨n, hn, hb⟩ := isFounded_nullable.matchesEmpty hx
  exact ⟨n, hn, Body.nullableIn_iff.2 hb⟩

/-! ## The least set -/

/-- **A set of names takes in all nodes that match the empty text** given the set. -/
def TakesInEmpty (m : Model) (S : Set String) : Prop :=
  ∀ name n, m.node? name = some n → n.body.MatchesEmpty S → name ∈ S

/-- A founded list lies in every such set. -/
theorem IsFounded.mem_of_takesInEmpty (h : m.IsFounded known) {S : Set String}
    (hS : m.TakesInEmpty S) : ∀ x ∈ known, x ∈ S := by
  induction known using List.reverseRecOn with
  | nil => exact fun _ hx => absurd hx List.not_mem_nil
  | append_singleton known y ih =>
    have hfront : ∀ x ∈ known, x ∈ S := ih h.front
    obtain ⟨n, hn, hb⟩ := h.founded known y [] rfl
    intro x hx
    rcases List.mem_append.1 hx with hx | hx
    · exact hfront x hx
    · obtain rfl := List.mem_singleton.1 hx
      exact hS x n hn (hb.mono hfront)

/-- What is found takes in all nodes that match the empty text given what is found. -/
theorem takesInEmpty_nullable : m.TakesInEmpty {x | x ∈ m.nullable} :=
  fun _ _ hn hb => mem_nullable hn (Body.nullableIn_iff.2 hb)

/-- **The passes end with the least set** that takes in all nodes that match the empty text given
the set, whether or not all references are to nodes and the model is left-recursive: after no more
passes than there are nodes, another one adds nothing. What is found is a list of nodes without
repeats, and each of them matches the empty text given those before it. -/
theorem isLeast_nullable (m : Model) :
    (∃ k ≤ m.nodes.size,
      m.nullablePass^[k] [] = m.nullable ∧ m.nullablePass m.nullable = m.nullable) ∧
    IsLeast {S | m.TakesInEmpty S} {x | x ∈ m.nullable} ∧
    m.nullable.Nodup ∧ m.nullable ⊆ m.names ∧
    ∀ front name back, m.nullable = front ++ name :: back →
      ∃ n, m.node? name = some n ∧ n.body.MatchesEmpty {x | x ∈ front} := by
  have hfounded : m.IsFounded m.nullable := isFounded_nullable
  refine ⟨?_, ⟨takesInEmpty_nullable, fun S hS => hfounded.mem_of_takesInEmpty hS⟩,
    hfounded.nodup, hfounded.subset_names, hfounded.founded⟩
  obtain ⟨k, hk, hlength⟩ := m.exists_iterate_nullablePass (m.nodes.size + 1) []
  have hle : k ≤ m.nullable.length := by rwa [List.length_nil, Nat.zero_add] at hlength
  exact ⟨k, Nat.le_trans hle hfounded.length_le, hk, nullablePass_nullable⟩

end Model

end GrammarKit
