import GrammarKit.Model.Components
import Mathlib.Data.List.Nodup
import Mathlib.Logic.Relation

/-!
# The components of a graph are found

The visit numbers names as it meets them. At any time, the names between the first one and the
current one, the *path*, lead to each other in this order; every name on the stack leads to one of
the path that was met no later, and is led to by all that stand below it. What stands above a name
that leads back no further than to itself is therefore a component: all of it leads to each other,
and nothing leaves it but for components that are complete.

* `Graph.Leads`: one name leads to another one, in any number of steps.
* `Graph.Finder.IsSound`: what holds of the state between two steps.
* `Graph.Finder.HasVisited`: what a visit has done so far.
* **`Graph.Finder.visits_visit`**: a visit keeps the state sound and meets all that can be met.
* `Graph.mem_flatten_components`: each name is in a component.
* **`Graph.mem_component_iff`**: names are in one component if and only if they lead to each other.
-/

namespace GrammarKit.Graph

/-- A step from one name to another. -/
def Edge (next : String → List String) (x y : String) : Prop := y ∈ next x

/-- One name leads to another one, in any number of steps. -/
abbrev Leads (next : String → List String) : String → String → Prop :=
  Relation.ReflTransGen (Edge next)

/-- What nothing leads out of holds all that its names lead to. -/
theorem mem_of_leads {next : String → List String} {closed : List String}
    (h : ∀ x ∈ closed, ∀ y ∈ next x, y ∈ closed) {x y : String} (hxy : Leads next x y)
    (hx : x ∈ closed) : y ∈ closed := by
  induction hxy with
  | refl => exact hx
  | tail _ hstep ih => exact h _ ih _ hstep

namespace Finder

variable {next : String → List String} {all path : List String} {f g : Finder} {x y : String}

/-! ## The steps of a visit -/

theorem hasMet_enter : (f.enter x).hasMet y = true ↔ y = x ∨ f.hasMet y = true := by
  rw [hasMet, Table.contains, enter]
  by_cases h : y = x
  · subst h
    simp
  · simp [Table.get?_insert_of_ne _ h, h, hasMet, Table.contains]

@[simp] theorem indexOf_enter_self : (f.enter x).indexOf x = f.nextIndex := by
  simp [indexOf, enter]

theorem indexOf_enter_of_ne (h : y ≠ x) : (f.enter x).indexOf y = f.indexOf y := by
  simp [indexOf, enter, Table.get?_insert_of_ne _ h]

@[simp] theorem lowOf_enter_self : (f.enter x).lowOf x = f.nextIndex := by
  simp [lowOf, enter]

theorem lowOf_enter_of_ne (h : y ≠ x) : (f.enter x).lowOf y = f.lowOf y := by
  simp [lowOf, enter, Table.get?_insert_of_ne _ h]

@[simp] theorem lowOf_lower_self {n : Nat} : (f.lower x n).lowOf x = min (f.lowOf x) n := by
  simp [lowOf, lower]

theorem lowOf_lower_of_ne {n : Nat} (h : y ≠ x) : (f.lower x n).lowOf y = f.lowOf y := by
  simp [lowOf, lower, Table.get?_insert_of_ne _ h]

theorem popTo_append {front rest : List String} (h : x ∉ front) :
    popTo x (front ++ x :: rest) = (front ++ [x], rest) := by
  induction front with
  | nil => simp [popTo]
  | cons z front ih =>
    obtain ⟨hz, hfront⟩ := not_or.1 (List.mem_cons.not.1 h)
    simp [popTo, Ne.symm hz, ih hfront]

/-- The state once the component of `x`, the stack down to it, is complete. -/
def close (f : Finder) (component rest : List String) : Finder :=
  { f with
    stack := rest
    onStack := f.onStack.filter (· ∉ component)
    components := f.components ++ [component] }

theorem leave_of_ne (h : f.lowOf x ≠ f.indexOf x) : f.leave x = f := if_neg h

theorem leave_of_eq (h : f.lowOf x = f.indexOf x) {front rest : List String}
    (hstack : f.stack = front ++ x :: rest) (hfront : x ∉ front) :
    f.leave x = f.close (front ++ [x]) rest := by
  rw [leave, if_pos h, hstack, popTo_append hfront, close]

/-! ## What holds between two steps -/

/-- **What holds between two steps** of visits of the names of `path`, the latest first. -/
structure IsSound (next : String → List String) (all path : List String) (f : Finder) : Prop where
  mem_onStack : ∀ x, x ∈ f.onStack ↔ x ∈ f.stack
  hasMet_iff : ∀ x, f.hasMet x = true ↔ x ∈ f.stack ∨ x ∈ f.components.flatten
  mem_all : ∀ x, f.hasMet x = true → x ∈ all
  indexOf_lt : ∀ x, f.hasMet x = true → f.indexOf x < f.nextIndex
  /-- Names on the stack lead to those above, which were met later. -/
  ordered : f.stack.Pairwise fun x y => f.indexOf y < f.indexOf x ∧ Leads next y x
  nodup : (f.stack ++ f.components.flatten).Nodup
  path_subset : path ⊆ f.stack
  /-- Names on the stack lead back to the path. -/
  returns : ∀ x ∈ f.stack, ∃ p ∈ path, f.indexOf p ≤ f.indexOf x ∧ Leads next x p
  /-- What was visited leads to names that were met. -/
  visited : ∀ x, f.hasMet x = true → x ∉ path → ∀ y ∈ next x, f.hasMet y = true
  /-- Nothing leads out of the components that are complete. -/
  closed : ∀ x ∈ f.components.flatten, ∀ y ∈ next x, y ∈ f.components.flatten
  component : ∀ c ∈ f.components,
    c ≠ [] ∧ ∀ x ∈ c, ∀ y, y ∈ c ↔ Leads next x y ∧ Leads next y x

namespace IsSound

/-- Nothing was met yet. -/
theorem empty : IsSound next all [] {} where
  mem_onStack _ := Iff.rfl
  hasMet_iff _ := by simp [hasMet, Table.contains, Table.get?, EmptyCollection.emptyCollection,
    Table.empty, Entries.find?]
  mem_all _ h := by cases h
  indexOf_lt _ h := by cases h
  ordered := .nil
  nodup := List.nodup_nil
  path_subset := List.nil_subset _
  returns _ h := by cases h
  visited _ h := by cases h
  closed _ h := by cases h
  component _ h := by cases h

theorem hasMet_of_mem_stack (h : IsSound next all path f) (hx : x ∈ f.stack) :
    f.hasMet x = true := (h.hasMet_iff x).2 (.inl hx)

/-- Low numbers may change at any time. -/
theorem lower (h : IsSound next all path f) (x : String) (n : Nat) :
    IsSound next all path (f.lower x n) := { h with }

theorem enter (h : IsSound next all path f) (hall : x ∈ all) (hx : ¬ f.hasMet x = true)
    (hpath : ∀ p ∈ path, Leads next p x) : IsSound next all (x :: path) (f.enter x) := by
  have hne {y : String} (hy : f.hasMet y = true) : y ≠ x := fun e => hx (e ▸ hy)
  have hstack {y : String} (hy : y ∈ f.stack) : y ≠ x := hne (h.hasMet_of_mem_stack hy)
  have hindex {y : String} (hy : y ∈ f.stack) : (f.enter x).indexOf y = f.indexOf y :=
    indexOf_enter_of_ne (hstack hy)
  have hlt {y : String} (hy : y ∈ f.stack) : f.indexOf y < f.nextIndex :=
    h.indexOf_lt y (h.hasMet_of_mem_stack hy)
  refine
    { mem_onStack := fun y => ?_, hasMet_iff := fun y => ?_, mem_all := fun y hy => ?_,
      indexOf_lt := fun y hy => ?_, ordered := ?_, nodup := ?_, path_subset := ?_,
      returns := fun y hy => ?_, visited := fun y hy hpath z hz => ?_, closed := h.closed,
      component := h.component }
  · simp [Finder.enter, h.mem_onStack]
  · rw [hasMet_enter, h.hasMet_iff, ← or_assoc, Finder.enter, List.mem_cons]
  · rcases hasMet_enter.1 hy with rfl | hy
    · exact hall
    · exact h.mem_all y hy
  · rcases hasMet_enter.1 hy with rfl | hy
    · rw [indexOf_enter_self]
      exact Nat.lt_succ_self _
    · rw [indexOf_enter_of_ne (hne hy)]
      exact Nat.lt_succ_of_lt (h.indexOf_lt y hy)
  · refine List.pairwise_cons.2 ⟨fun y hy => ?_, h.ordered.imp_of_mem fun ha hb hab => ?_⟩
    · obtain ⟨p, hp, -, hyp⟩ := h.returns y hy
      rw [indexOf_enter_self, hindex hy]
      exact ⟨hlt hy, hyp.trans (hpath p hp)⟩
    · rwa [hindex ha, hindex hb]
  · refine List.nodup_cons.2 ⟨fun hmem => hx ?_, h.nodup⟩
    exact (h.hasMet_iff x).2 (List.mem_append.1 hmem)
  · exact List.cons_subset_cons x h.path_subset
  · rcases List.mem_cons.1 hy with rfl | hy
    · exact ⟨y, List.mem_cons_self, Nat.le_refl _, .refl⟩
    · obtain ⟨p, hp, hle, hyp⟩ := h.returns y hy
      refine ⟨p, List.mem_cons_of_mem _ hp, ?_, hyp⟩
      rwa [hindex (h.path_subset hp), hindex hy]
  · obtain ⟨hyx, hypath⟩ := not_or.1 (List.mem_cons.not.1 hpath)
    exact hasMet_enter.2 (.inr (h.visited y ((hasMet_enter.1 hy).resolve_left hyx) hypath z hz))

/-! ### The stack at a name of the path -/

section Stack

variable {front rest : List String} (h : IsSound next all (x :: path) g)
  (hstack : g.stack = front ++ x :: rest)

include h hstack

theorem indexOf_lt_of_mem_rest (hy : y ∈ rest) : g.indexOf y < g.indexOf x := by
  have hordered := (List.pairwise_append.1 (hstack ▸ h.ordered)).2.1
  exact ((List.pairwise_cons.1 hordered).1 y hy).1

theorem mem_rest_of_indexOf_lt (hy : y ∈ g.stack) (hlt : g.indexOf y < g.indexOf x) :
    y ∈ rest := by
  have hordered := (List.pairwise_append.1 (hstack ▸ h.ordered)).2.2
  rw [hstack] at hy
  rcases List.mem_append.1 hy with hy | hy
  · exact absurd (hordered y hy x List.mem_cons_self).1 (Nat.lt_asymm hlt)
  · exact (List.mem_cons.1 hy).resolve_left fun e => Nat.lt_irrefl _ (e ▸ hlt)

theorem leads_of_mem_front (hy : y ∈ front ++ [x]) : Leads next x y := by
  have hordered := (List.pairwise_append.1 (hstack ▸ h.ordered)).2.2
  rcases List.mem_append.1 hy with hy | hy
  · exact (hordered y hy x List.mem_cons_self).2
  · exact List.mem_singleton.1 hy ▸ .refl

/-- What stands above `x` leads back to it. -/
theorem leads_self_of_mem_front (hpath : ∀ p ∈ path, Leads next p x) (hy : y ∈ front ++ [x]) :
    Leads next y x := by
  have hmem : y ∈ g.stack := by
    rw [hstack, ← List.singleton_append, ← List.append_assoc]
    exact List.mem_append_left _ hy
  obtain ⟨p, hp, -, hyp⟩ := h.returns y hmem
  rcases List.mem_cons.1 hp with rfl | hp
  · exact hyp
  · exact hyp.trans (hpath p hp)

/-- What stands below `x` leads back to the names that are being visited below it. -/
theorem returns_of_mem_rest (hy : y ∈ rest) :
    ∃ p ∈ path, g.indexOf p ≤ g.indexOf y ∧ Leads next y p := by
  have hmem : y ∈ g.stack := hstack ▸ List.mem_append_right _ (List.mem_cons_of_mem _ hy)
  obtain ⟨p, hp, hle, hyp⟩ := h.returns y hmem
  have hlt := h.indexOf_lt_of_mem_rest hstack hy
  exact ⟨p, (List.mem_cons.1 hp).resolve_left fun e => Nat.not_lt.2 (e ▸ hle) hlt, hle, hyp⟩

theorem notMem_front : x ∉ front := fun hmem => by
  have hordered := (List.pairwise_append.1 (hstack ▸ h.ordered)).2.2
  exact Nat.lt_irrefl _ (hordered x hmem x List.mem_cons_self).1

/-- A name that leads back below itself stays on the stack. -/
theorem drop (hdone : ∀ y ∈ next x, g.hasMet y = true) (hy : y ∈ rest)
    (hxy : Leads next x y) : IsSound next all path g := by
  refine { h with path_subset := fun p hp => h.path_subset (List.mem_cons_of_mem _ hp),
                  returns := fun z hz => ?_, visited := fun z hz hpath => ?_ }
  · obtain ⟨p, hp, hle, hzp⟩ := h.returns z hz
    rcases List.mem_cons.1 hp with rfl | hp
    · obtain ⟨q, hq, hqy, hyq⟩ := h.returns_of_mem_rest hstack hy
      have hlt := h.indexOf_lt_of_mem_rest hstack hy
      exact ⟨q, hq, by omega, hzp.trans (hxy.trans hyq)⟩
    · exact ⟨p, hp, hle, hzp⟩
  · by_cases hzx : z = x
    · exact hzx ▸ hdone
    · exact h.visited z hz (by simp [hzx, hpath])

/-- Nothing leads out of the names above `x` and of the components that are complete, if nothing
leads further down the stack. -/
theorem closed_append (hrest : path ⊆ rest) (hdone : ∀ y ∈ next x, g.hasMet y = true)
    (hout : ∀ y ∈ front ++ [x], ∀ z ∈ next y, z ∉ rest) :
    ∀ y ∈ g.components.flatten ++ (front ++ [x]), ∀ z ∈ next y,
      z ∈ g.components.flatten ++ (front ++ [x]) := by
  have hsplit : g.stack = (front ++ [x]) ++ rest := by simp [hstack]
  obtain ⟨hnodup, -⟩ := List.nodup_append'.1 h.nodup
  obtain ⟨-, -, hbelow⟩ := List.nodup_append'.1 (hsplit ▸ hnodup)
  intro y hy z hz
  rcases List.mem_append.1 hy with hy | hy
  · exact List.mem_append_left _ (h.closed y hy z hz)
  · have hmet : g.hasMet z = true := by
      rcases List.mem_append.1 hy with hfront | hyx
      · refine h.visited y (h.hasMet_of_mem_stack (hsplit ▸ List.mem_append_left _ hy)) ?_ z hz
        have hne : y ≠ x := fun e => h.notMem_front hstack (e ▸ hfront)
        simpa [hne] using fun hp => hbelow hy (hrest hp)
      · exact hdone z (List.mem_singleton.1 hyx ▸ hz)
    rw [h.hasMet_iff, hsplit, List.mem_append] at hmet
    have hzrest := hout y hy z hz
    rw [List.mem_append]
    tauto

/-- The names above `x` are all that lead to each other and to `x`. -/
theorem mem_front_iff (hpath : ∀ p ∈ path, Leads next p x)
    (hclosed : ∀ y ∈ g.components.flatten ++ (front ++ [x]), ∀ z ∈ next y,
      z ∈ g.components.flatten ++ (front ++ [x])) {z : String} (hy : y ∈ front ++ [x]) :
    z ∈ front ++ [x] ↔ Leads next y z ∧ Leads next z y := by
  have hto {u : String} (hu : u ∈ front ++ [x]) : Leads next u x :=
    h.leads_self_of_mem_front hstack hpath hu
  have hof {u : String} (hu : u ∈ front ++ [x]) : Leads next x u := h.leads_of_mem_front hstack hu
  refine ⟨fun hz => ⟨(hto hy).trans (hof hz), (hto hz).trans (hof hy)⟩, fun ⟨hyz, hzy⟩ => ?_⟩
  have hz := mem_of_leads hclosed hyz (List.mem_append_right _ hy)
  refine (List.mem_append.1 hz).resolve_left fun hz => ?_
  -- Nothing leads from components that are complete to the stack.
  have hsplit : g.stack = (front ++ [x]) ++ rest := by simp [hstack]
  exact List.disjoint_of_nodup_append h.nodup (hsplit ▸ List.mem_append_left _ hy)
    (mem_of_leads h.closed hzy hz)

/-- **A component is complete** when nothing in it leads further down the stack. -/
theorem close (hrest : path ⊆ rest) (hpath : ∀ p ∈ path, Leads next p x)
    (hdone : ∀ y ∈ next x, g.hasMet y = true)
    (hout : ∀ y ∈ front ++ [x], ∀ z ∈ next y, z ∉ rest) :
    IsSound next all path (g.close (front ++ [x]) rest) := by
  have hsplit : g.stack = (front ++ [x]) ++ rest := by simp [hstack]
  have hflatten : (g.close (front ++ [x]) rest).components.flatten =
      g.components.flatten ++ (front ++ [x]) := by simp [Finder.close]
  have hclosed := h.closed_append hstack hrest hdone hout
  have hreturns : ∀ y ∈ rest, ∃ p ∈ path, g.indexOf p ≤ g.indexOf y ∧ Leads next y p :=
    fun y hy => h.returns_of_mem_rest hstack hy
  refine
    { mem_onStack := fun y => ?_, hasMet_iff := fun y => ?_, mem_all := h.mem_all,
      indexOf_lt := h.indexOf_lt, ordered := ?_, nodup := ?_, path_subset := hrest,
      returns := hreturns, visited := fun y hy hnot => ?_,
      closed := hflatten ▸ hclosed, component := fun c hc => ?_ }
  · obtain ⟨hnodup, -⟩ := List.nodup_append'.1 h.nodup
    have hbelow := @List.disjoint_of_nodup_append _ _ _ (hsplit ▸ hnodup) y
    simp only [Finder.close, List.mem_filter, h.mem_onStack, hsplit, List.mem_append,
      decide_eq_true_eq] at hbelow ⊢
    tauto
  · rw [hflatten]
    refine (h.hasMet_iff y).trans ?_
    simp only [hsplit, Finder.close, List.mem_append]
    tauto
  · exact (List.pairwise_append.1 (hsplit ▸ h.ordered)).2.1
  · rw [hflatten, ← List.append_assoc, List.nodup_append_comm, ← List.append_assoc]
    exact hsplit ▸ h.nodup
  · by_cases hyx : y = x
    · exact hyx ▸ hdone
    · exact h.visited y hy (by simp [hyx, hnot])
  · rcases List.mem_append.1 hc with hc | hc
    · exact h.component c hc
    · obtain rfl := List.mem_singleton.1 hc
      exact ⟨by simp, fun y hy z => h.mem_front_iff hstack hpath hclosed hy⟩

end Stack

end IsSound

/-- A later state agrees on what was met before. -/
structure Keeps (f g : Finder) : Prop where
  hasMet : ∀ y, f.hasMet y = true → g.hasMet y = true
  indexOf_eq : ∀ y, f.hasMet y = true → g.indexOf y = f.indexOf y
  lowOf_eq : ∀ y, f.hasMet y = true → g.lowOf y = f.lowOf y

/-- **What a visit of `x` has done so far**: it started with `f`, has followed the steps to the
names of `done`, and `g` is the state now. The names that it put on the stack are `front`. -/
structure HasVisited (next : String → List String) (f : Finder) (x : String)
    (done front : List String) (g : Finder) : Prop extends Keeps f g where
  stack_eq : g.stack = front ++ f.stack
  hasMet_self : g.hasMet x = true
  indexOf_self : g.indexOf x = f.nextIndex
  hasMet_done : ∀ y ∈ done, g.hasMet y = true
  lowOf_le : g.lowOf x ≤ g.indexOf x
  /-- The low number accounts for all steps back that were seen. -/
  lowOf_le_of_edge : ∀ y ∈ front, ∀ z ∈ next y, (y = x → z ∈ done) → z ∈ f.stack →
    g.lowOf x ≤ f.indexOf z
  /-- The low number is that of a name that `x` leads back to. -/
  leads_lowOf : g.lowOf x < g.indexOf x →
    ∃ z ∈ f.stack, f.indexOf z = g.lowOf x ∧ Leads next x z

theorem Keeps.refl (f : Finder) : Keeps f f := ⟨fun _ => id, fun _ _ => rfl, fun _ _ => rfl⟩

theorem Keeps.trans {e : Finder} (h : Keeps e f) (hfg : Keeps f g) : Keeps e g where
  hasMet y hy := hfg.hasMet y (h.hasMet y hy)
  indexOf_eq y hy := (hfg.indexOf_eq y (h.hasMet y hy)).trans (h.indexOf_eq y hy)
  lowOf_eq y hy := (hfg.lowOf_eq y (h.hasMet y hy)).trans (h.lowOf_eq y hy)

theorem Keeps.enter (hx : ¬ f.hasMet x = true) : Keeps f (f.enter x) where
  hasMet _ hy := hasMet_enter.2 (.inr hy)
  indexOf_eq _ hy := indexOf_enter_of_ne fun e => hx (e ▸ hy)
  lowOf_eq _ hy := lowOf_enter_of_ne fun e => hx (e ▸ hy)

/-- Lowering the number of a name that is new keeps what was met before. -/
theorem Keeps.lower (h : Keeps f g) (hx : ¬ f.hasMet x = true) (n : Nat) :
    Keeps f (g.lower x n) where
  hasMet := h.hasMet
  indexOf_eq := h.indexOf_eq
  lowOf_eq y hy := by
    have hne : y ≠ x := fun e => hx (e ▸ hy)
    rw [lowOf_lower_of_ne hne, h.lowOf_eq y hy]

/-- The names that are still to be met. -/
def unmet (f : Finder) (all : List String) : List String := all.filter fun x => !f.hasMet x

theorem mem_unmet : x ∈ f.unmet all ↔ x ∈ all ∧ ¬ f.hasMet x = true := by
  simp [unmet]

theorem Keeps.unmet_lt (h : Keeps f g) (hx : x ∈ f.unmet all) (hmet : g.hasMet x = true) :
    (g.unmet all).length < (f.unmet all).length := by
  have hfilter : g.unmet all = (f.unmet all).filter fun x => !g.hasMet x := by
    rw [unmet, unmet, List.filter_filter]
    refine List.filter_congr fun y _ => ?_
    have := h.hasMet y
    cases hf : f.hasMet y <;> simp_all
  rw [hfilter, List.length_filter_lt_length_iff_exists]
  exact ⟨x, hx, by simp [hmet]⟩

namespace HasVisited

variable {done front more : List String} {n : Nat}

theorem enter (hx : ¬ f.hasMet x = true) : HasVisited next f x [] [x] (f.enter x) where
  toKeeps := .enter hx
  stack_eq := rfl
  hasMet_self := hasMet_enter.2 (.inl rfl)
  indexOf_self := indexOf_enter_self
  hasMet_done _ h := by cases h
  lowOf_le := by simp
  lowOf_le_of_edge y hy z _ hdone _ := by cases hdone (List.mem_singleton.1 hy)
  leads_lowOf h := by simp at h

/-- A step to a name whose component is complete changes nothing. -/
theorem skip (h : HasVisited next f x done front g) (hy : g.hasMet y = true)
    (hstack : y ∉ f.stack) : HasVisited next f x (done ++ [y]) front g where
  toKeeps := h.toKeeps
  stack_eq := h.stack_eq
  hasMet_self := h.hasMet_self
  indexOf_self := h.indexOf_self
  hasMet_done := List.forall_mem_append.2 ⟨h.hasMet_done, List.forall_mem_singleton.2 hy⟩
  lowOf_le := h.lowOf_le
  lowOf_le_of_edge u hu z hz hdone hmem := by
    refine h.lowOf_le_of_edge u hu z hz (fun hux => ?_) hmem
    refine (List.mem_append.1 (hdone hux)).resolve_right fun hzy => hstack ?_
    exact List.mem_singleton.1 hzy ▸ hmem
  leads_lowOf := h.leads_lowOf

/-- **A step to `y`**, after which `x` is known to lead back to the number `n`; what was put on the
stack on the way is `more`. -/
theorem lower {e : Finder} (h : HasVisited next f x done front e) (hx : ¬ f.hasMet x = true)
    (hkeeps : Keeps e g) (hstack : g.stack = more ++ e.stack)
    (hy : g.hasMet y = true) (hlow : y ∈ f.stack → n ≤ f.indexOf y)
    (hedge : ∀ u ∈ more, ∀ z ∈ next u, z ∈ f.stack → n ≤ f.indexOf z)
    (hleads : n < e.indexOf x → ∃ z ∈ f.stack, f.indexOf z = n ∧ Leads next x z) :
    HasVisited next f x (done ++ [y]) (more ++ front) (g.lower x n) := by
  have hindex : (g.lower x n).indexOf x = e.indexOf x := hkeeps.indexOf_eq x h.hasMet_self
  have hlower : (g.lower x n).lowOf x = min (e.lowOf x) n := by
    rw [lowOf_lower_self, hkeeps.lowOf_eq x h.hasMet_self]
  refine
    { toKeeps := (h.toKeeps.trans hkeeps).lower hx n, stack_eq := ?_,
      hasMet_self := hkeeps.hasMet x h.hasMet_self, indexOf_self := hindex.trans h.indexOf_self,
      hasMet_done := ?_, lowOf_le := ?_, lowOf_le_of_edge := fun u hu z hz hdone hzf => ?_,
      leads_lowOf := fun hlt => ?_ }
  · rw [List.append_assoc, ← h.stack_eq]
    exact hstack
  · refine List.forall_mem_append.2 ⟨fun z hz => ?_, List.forall_mem_singleton.2 hy⟩
    exact hkeeps.hasMet z (h.hasMet_done z hz)
  · rw [hlower, hindex]
    exact Nat.le_trans (Nat.min_le_left _ _) h.lowOf_le
  · rw [hlower]
    rcases List.mem_append.1 hu with hu | hu
    · exact Nat.le_trans (Nat.min_le_right _ _) (hedge u hu z hz hzf)
    · by_cases hzy : u = x ∧ z = y
      · obtain ⟨-, rfl⟩ := hzy
        exact Nat.le_trans (Nat.min_le_right _ _) (hlow hzf)
      · refine Nat.le_trans (Nat.min_le_left _ _)
          (h.lowOf_le_of_edge u hu z hz (fun hux => ?_) hzf)
        refine (List.mem_append.1 (hdone hux)).resolve_right fun hmem => hzy ⟨hux, ?_⟩
        exact List.mem_singleton.1 hmem
  · rw [hlower, hindex] at hlt
    rw [hlower]
    rcases Nat.le_total (e.lowOf x) n with hle | hle
    · rw [Nat.min_eq_left hle] at hlt ⊢
      exact h.leads_lowOf hlt
    · rw [Nat.min_eq_right hle] at hlt ⊢
      exact hleads hlt

theorem close (h : HasVisited next f x done front g) (component : List String) :
    HasVisited next f x done [] (g.close component f.stack) where
  toKeeps := ⟨h.hasMet, h.indexOf_eq, h.lowOf_eq⟩
  stack_eq := rfl
  hasMet_self := h.hasMet_self
  indexOf_self := h.indexOf_self
  hasMet_done := h.hasMet_done
  lowOf_le := h.lowOf_le
  lowOf_le_of_edge _ hu := by cases hu
  leads_lowOf := h.leads_lowOf

end HasVisited

/-! ## Visits -/

/-- **What visits do** while no more than `n` names are still to be met: a name that all of the
path leads to is met, with all it leads to, and the state stays sound. -/
def Visits (next : String → List String) (all : List String) (n : Nat)
    (visit : String → Finder → Finder) : Prop :=
  ∀ {path : List String} {f : Finder} {x : String}, IsSound next all path f → x ∈ f.unmet all →
    (∀ p ∈ path, Leads next p x) → (f.unmet all).length ≤ n →
      IsSound next all path (visit x f) ∧
        ∃ front, HasVisited next f x (next x) front (visit x f)

section Steps

variable {n : Nat} {visit : String → Finder → Finder} {done front : List String}
  (hf : IsSound next all path f) (hx : x ∈ f.unmet all) (hpath : ∀ p ∈ path, Leads next p x)

include hf hpath

/-- **Following one step** keeps the state sound. -/
theorem isSound_follow (hvisit : Visits next all n visit) (hx : x ∈ f.unmet all)
    (hn : (f.unmet all).length ≤ n + 1) (hg : IsSound next all (x :: path) g)
    (hvisited : HasVisited next f x done (front ++ [x]) g) (hy : y ∈ next x) (hall : y ∈ all) :
    IsSound next all (x :: path) (follow visit x g y) ∧
      ∃ front, HasVisited next f x (done ++ [y]) (front ++ [x]) (follow visit x g y) := by
  have hnew := (mem_unmet.1 hx).2
  have hstack : g.stack = front ++ x :: f.stack := by simp [hvisited.stack_eq]
  have hindex {z : String} (hz : z ∈ f.stack) : g.indexOf z = f.indexOf z :=
    hvisited.indexOf_eq z (hf.hasMet_of_mem_stack hz)
  have hbelow {z : String} (hz : z ∈ f.stack) : z ∈ g.stack :=
    hvisited.stack_eq ▸ List.mem_append_right _ hz
  rw [follow]
  split
  · rename_i hmet
    have hmet : ¬ g.hasMet y = true := by simpa using hmet
    have hlead : ∀ p ∈ x :: path, Leads next p y :=
      List.forall_mem_cons.2 ⟨.single hy, fun p hp => (hpath p hp).tail hy⟩
    have hless := hvisited.toKeeps.unmet_lt hx hvisited.hasMet_self
    obtain ⟨hsound, more, hmore⟩ := hvisit hg (mem_unmet.2 ⟨hall, hmet⟩) hlead (by omega)
    refine ⟨hsound.lower x _, more ++ front, ?_⟩
    rw [List.append_assoc]
    refine hvisited.lower hnew hmore.toKeeps hmore.stack_eq hmore.hasMet_self
      (fun hyf => absurd (hg.hasMet_of_mem_stack (hbelow hyf)) hmet) (fun u hu z hz hzf => ?_)
      fun hlt => ?_
    · rw [← hindex hzf]
      exact hmore.lowOf_le_of_edge u hu z hz (fun e => e ▸ hz) (hbelow hzf)
    · -- The child leads back below `x`, which was met before it.
      have hlater := hg.indexOf_lt x hvisited.hasMet_self
      obtain ⟨z, hz, hzlow, hyz⟩ := hmore.leads_lowOf (by rw [hmore.indexOf_self]; omega)
      have hzf := hg.mem_rest_of_indexOf_lt hstack hz (hzlow ▸ hlt)
      exact ⟨z, hzf, hindex hzf ▸ hzlow, .head hy hyz⟩
  · rename_i hmet
    have hmet : g.hasMet y = true := by simpa using hmet
    split
    · rename_i hon
      refine ⟨hg.lower x _, front, ?_⟩
      rw [← List.nil_append (front ++ [x])]
      refine hvisited.lower hnew (.refl g) rfl hmet (fun hyf => Nat.le_of_eq (hindex hyf))
        (fun u hu => by cases hu) fun hlt => ?_
      have hyf := hg.mem_rest_of_indexOf_lt hstack ((hg.mem_onStack y).1 hon) hlt
      exact ⟨y, hyf, (hindex hyf).symm, .single hy⟩
    · rename_i hon
      exact ⟨hg, front, hvisited.skip hmet fun hyf => hon ((hg.mem_onStack y).2 (hbelow hyf))⟩

/-- Following steps one after the other keeps the state sound. -/
theorem isSound_foldl_follow (hvisit : Visits next all n visit) (hx : x ∈ f.unmet all)
    (hn : (f.unmet all).length ≤ n + 1) {targets : List String}
    (htargets : ∀ y ∈ targets, y ∈ next x ∧ y ∈ all) (hg : IsSound next all (x :: path) g)
    (hvisited : HasVisited next f x done (front ++ [x]) g) :
    IsSound next all (x :: path) (targets.foldl (follow visit x) g) ∧
      ∃ front, HasVisited next f x (done ++ targets) (front ++ [x])
        (targets.foldl (follow visit x) g) := by
  induction targets generalizing g done front with
  | nil => exact ⟨hg, front, (List.append_nil done).symm ▸ hvisited⟩
  | cons y targets ih =>
    obtain ⟨⟨hy, hall⟩, htargets⟩ := List.forall_mem_cons.1 htargets
    obtain ⟨hg, front, hvisited⟩ := isSound_follow hf hpath hvisit hx hn hg hvisited hy hall
    simpa using ih htargets hg hvisited

/-- **Leaving a name** completes its component, unless it leads back below itself. -/
theorem isSound_leave (hg : IsSound next all (x :: path) g)
    (hvisited : HasVisited next f x (next x) (front ++ [x]) g) :
    IsSound next all path (g.leave x) ∧
      ∃ front, HasVisited next f x (next x) front (g.leave x) := by
  have hstack : g.stack = front ++ x :: f.stack := by simp [hvisited.stack_eq]
  by_cases hlow : g.lowOf x = g.indexOf x
  · rw [leave_of_eq hlow hstack (hg.notMem_front hstack)]
    refine ⟨?_, [], hvisited.close _⟩
    refine hg.close hstack hf.path_subset hpath hvisited.hasMet_done fun u hu z hz hzf => ?_
    have hle := hvisited.lowOf_le_of_edge u hu z hz (fun e => e ▸ hz) hzf
    have hlt := hg.indexOf_lt_of_mem_rest hstack hzf
    rw [hvisited.indexOf_eq z (hf.hasMet_of_mem_stack hzf)] at hlt
    omega
  · rw [leave_of_ne hlow]
    obtain ⟨z, hz, -, hxz⟩ := hvisited.leads_lowOf (Nat.lt_of_le_of_ne hvisited.lowOf_le hlow)
    have hsub : path ⊆ g.stack := fun p hp => hg.path_subset (List.mem_cons_of_mem _ hp)
    exact ⟨hg.drop hstack hvisited.hasMet_done hz hxz, front ++ [x], hvisited⟩

end Steps

/-- **A visit keeps the state sound** and meets all that can be met. -/
theorem visits_visit (hnext : ∀ x, ∀ y ∈ next x, y ∈ all) (n : Nat) :
    Visits next all n (visit next n) := by
  induction n with
  | zero =>
    intro path f x hf hx hpath hn
    exact absurd (List.length_pos_of_mem hx) (Nat.not_lt.2 hn)
  | succ n ih =>
    intro path f x hf hx hpath hn
    obtain ⟨hall, hnew⟩ := mem_unmet.1 hx
    have hstart : HasVisited next f x [] ([] ++ [x]) (f.enter x) := .enter hnew
    obtain ⟨hg, front, hvisited⟩ := isSound_foldl_follow hf hpath ih hx hn
      (fun y hy => ⟨hy, hnext x y hy⟩) (hf.enter hall hnew hpath) hstart
    exact isSound_leave hf hpath hg hvisited

/-- A visit that starts outside all others meets its name. -/
theorem isSound_visitNew (hnext : ∀ x, ∀ y ∈ next x, y ∈ all) (hf : IsSound next all [] f)
    (hx : x ∈ all) :
    IsSound next all [] (visitNew next all.length f x) ∧
      Keeps f (visitNew next all.length f x) ∧ (visitNew next all.length f x).hasMet x = true := by
  rw [visitNew]
  split
  · rename_i hmet
    exact ⟨hf, .refl f, hmet⟩
  · rename_i hmet
    obtain ⟨hsound, front, hvisited⟩ := visits_visit hnext all.length hf (mem_unmet.2 ⟨hx, hmet⟩)
      (fun p hp => by cases hp) (List.length_filter_le _ _)
    exact ⟨hsound, hvisited.toKeeps, hvisited.hasMet_self⟩

theorem isSound_foldl_visitNew (hnext : ∀ x, ∀ y ∈ next x, y ∈ all) {names : List String}
    (hnames : names ⊆ all) (hf : IsSound next all [] f) :
    IsSound next all [] (names.foldl (visitNew next all.length) f) ∧
      Keeps f (names.foldl (visitNew next all.length) f) ∧
      ∀ x ∈ names, (names.foldl (visitNew next all.length) f).hasMet x = true := by
  induction names generalizing f with
  | nil => exact ⟨hf, .refl f, fun x hx => by cases hx⟩
  | cons y names ih =>
    obtain ⟨hy, hnames⟩ := List.cons_subset.1 hnames
    obtain ⟨hsound, hkeeps, hmet⟩ := isSound_visitNew hnext hf hy
    obtain ⟨hsound, hlater, hall⟩ := ih hnames hsound
    exact ⟨hsound, hkeeps.trans hlater, List.forall_mem_cons.2 ⟨hlater.hasMet y hmet, hall⟩⟩

/-- Outside all visits, the stack is empty. -/
theorem IsSound.stack_eq_nil (h : IsSound next all [] f) : f.stack = [] := by
  refine List.eq_nil_iff_forall_not_mem.2 fun x hx => ?_
  obtain ⟨p, hp, -⟩ := h.returns x hx
  cases hp

end Finder

/-! ## All components -/

section Components

variable {next : String → List String} {names : List String}
  (hnext : ∀ x, ∀ y ∈ next x, y ∈ names)

include hnext

/-- The components are those of a sound state in which all names were met. -/
theorem exists_isSound_components : ∃ f, Finder.IsSound next names [] f ∧
    (∀ x ∈ names, f.hasMet x = true) ∧ f.components = components next names := by
  obtain ⟨hsound, -, hmet⟩ :=
    Finder.isSound_foldl_visitNew hnext (List.Subset.refl names) .empty
  exact ⟨_, hsound, hmet, rfl⟩

/-- No name is in two components. -/
theorem nodup_flatten_components : (components next names).flatten.Nodup := by
  obtain ⟨f, hsound, -, hf⟩ := exists_isSound_components hnext
  exact hf ▸ (List.nodup_append'.1 hsound.nodup).2.1

/-- Each name is in a component. -/
theorem mem_flatten_components {x : String} :
    x ∈ (components next names).flatten ↔ x ∈ names := by
  obtain ⟨f, hsound, hmet, hf⟩ := exists_isSound_components hnext
  rw [← hf]
  refine ⟨fun hx => hsound.mem_all x ((hsound.hasMet_iff x).2 (.inr hx)), fun hx => ?_⟩
  refine ((hsound.hasMet_iff x).1 (hmet x hx)).resolve_left ?_
  rw [hsound.stack_eq_nil]
  exact List.not_mem_nil

variable {c : List String} (hc : c ∈ components next names)

include hc

theorem ne_nil_of_mem_components : c ≠ [] := by
  obtain ⟨f, hsound, -, hf⟩ := exists_isSound_components hnext
  exact (hsound.component c (hf ▸ hc)).1

/-- **Names are in one component if and only if they lead to each other.** -/
theorem mem_component_iff {x y : String} (hx : x ∈ c) :
    y ∈ c ↔ Leads next x y ∧ Leads next y x := by
  obtain ⟨f, hsound, -, hf⟩ := exists_isSound_components hnext
  exact (hsound.component c (hf ▸ hc)).2 x hx y

end Components

/-- A component is complete before those that lead to it. -/
example : components (fun x => if x = "a" then ["b"] else if x = "b" then ["c", "a"] else ["c"])
    ["a", "b", "c"] = [["c"], ["b", "a"]] := by decide

end GrammarKit.Graph
