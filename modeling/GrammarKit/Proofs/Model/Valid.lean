import GrammarKit.Model.Validation

/-!
# What validation grants

* `Entries.find?_eq_some_iff`, `Table.get?_eq_some_iff`: look-up in a table is membership.
* `Table.get?_map`, `Table.get?_ofList_of_unique`: look-up in tables that are made from others.
* `Model.IsValid`: names are identifiers, references lead to nodes, unions have members, and the
  properties of a deduction are distinct and none of them is the reserved one.
* **`Model.faults_eq_nil_iff`**: a model without faults is valid.
-/

namespace GrammarKit

/-! ## Look-up -/

theorem Entries.mem_of_find? {α : Type} {key : String} {a : α} {entries : List (String × α)}
    (h : find? key entries = some a) : (key, a) ∈ entries := by
  induction entries with
  | nil => cases h
  | cons e entries ih =>
    obtain ⟨k, b⟩ := e
    rw [find?] at h
    split at h
    · rename_i hk
      cases h
      exact hk ▸ List.mem_cons_self
    · exact List.mem_cons_of_mem _ (ih h)

theorem Entries.find?_eq_some_iff {α : Type} {key : String} {a : α} {entries : List (String × α)}
    (hnodup : (entries.map Prod.fst).Nodup) :
    find? key entries = some a ↔ (key, a) ∈ entries := by
  refine ⟨mem_of_find?, fun h => ?_⟩
  induction entries with
  | nil => cases h
  | cons e entries ih =>
    obtain ⟨k, b⟩ := e
    rw [List.map_cons, List.nodup_cons] at hnodup
    rw [find?]
    rcases List.mem_cons.1 h with h | h
    · cases h
      rw [if_pos rfl]
    · rw [if_neg fun hk => hnodup.1 ?_]
      · exact ih hnodup.2 h
      · exact List.mem_map.2 ⟨(key, a), h, hk.symm⟩

theorem Table.get?_eq_some_iff {α : Type} (t : Table α) {key : String} {a : α} :
    t.get? key = some a ↔ (key, a) ∈ t.entries := Entries.find?_eq_some_iff t.nodup

/-- Values are looked up in a table with a function applied as in the table itself. -/
theorem Table.get?_map {α β : Type} (f : String → α → β) (t : Table α) (key : String) :
    (t.map f).get? key = (t.get? key).map (f key) := by
  show Entries.find? key (t.entries.map fun e => (e.1, f e.1 e.2)) = _
  rw [Table.get?]
  induction t.entries with
  | nil => rfl
  | cons e entries ih =>
    obtain ⟨k, a⟩ := e
    rw [List.map_cons, Entries.find?, Entries.find?]
    split
    · rename_i hk
      rw [hk]
      rfl
    · exact ih

/-- A table of entries holds each of them that has no other value under its name. -/
theorem Table.get?_ofList_of_unique {α : Type} {key : String} {a : α}
    {entries : List (String × α)} (h : (key, a) ∈ entries)
    (hunique : ∀ b, (key, b) ∈ entries → b = a) :
    (ofList entries).get? key = some a := by
  have hfoldl (entries : List (String × α)) (t : Table α)
      (hunique : ∀ b, (key, b) ∈ entries → b = a)
      (h : (key, a) ∈ entries ∨ t.get? key = some a) :
      (entries.foldl (fun t e => t.insert e.1 e.2) t).get? key = some a := by
    induction entries generalizing t with
    | nil => exact h.resolve_left List.not_mem_nil
    | cons e entries ih =>
      refine ih _ (fun b hb => hunique b (List.mem_cons_of_mem _ hb)) ?_
      show (key, a) ∈ entries ∨ (t.insert e.1 e.2).get? key = some a
      by_cases hkey : e.1 = key
      · have hvalue : e.2 = a := hunique e.2 (hkey ▸ List.mem_cons_self)
        rw [hkey, hvalue, get?_insert_self]
        exact .inr rfl
      · rw [get?_insert_of_ne _ (Ne.symm hkey)]
        exact h.imp_left fun h => (List.mem_cons.1 h).resolve_left fun he =>
          hkey (congrArg Prod.fst he).symm
  exact hfoldl entries .empty hunique (.inl h)

/-- The table of entries with distinct names holds each of them. -/
theorem Table.get?_ofList {α : Type} {key : String} {a : α} {entries : List (String × α)}
    (hnodup : (entries.map Prod.fst).Nodup) (h : (key, a) ∈ entries) :
    (Table.ofList entries).get? key = some a := by
  refine get?_ofList_of_unique h fun b hb => ?_
  have hfind := (Entries.find?_eq_some_iff hnodup).2 h
  exact Option.some.inj (((Entries.find?_eq_some_iff hnodup).2 hb).symm.trans hfind)

theorem Table.contains_iff {α : Type} (t : Table α) {key : String} :
    t.contains key = true ↔ key ∈ t.keys := by
  rw [contains, Option.isSome_iff_exists, keys, List.mem_map]
  constructor
  · rintro ⟨a, ha⟩
    exact ⟨(key, a), t.get?_eq_some_iff.1 ha, rfl⟩
  · rintro ⟨⟨_, a⟩, h, rfl⟩
    exact ⟨a, t.get?_eq_some_iff.2 h⟩

namespace Model

variable {m : Model}

theorem node?_eq_some_iff {name : String} {n : Node} :
    m.node? name = some n ↔ (name, n) ∈ m.nodes.entries := m.nodes.get?_eq_some_iff

theorem has_iff {name : String} : m.has name = true ↔ name ∈ m.names := m.nodes.contains_iff

theorem has_iff_node? {name : String} : m.has name = true ↔ ∃ n, m.node? name = some n :=
  Option.isSome_iff_exists

/-! ## Valid models -/

/-- **What validation grants.** -/
structure IsValid (m : Model) : Prop where
  start : m.has m.start = true
  names : ∀ name ∈ m.names, isIdentifier name = true
  references : ∀ {name n}, m.node? name = some n → ∀ r ∈ n.references, m.has r = true
  members : ∀ {name n ms}, m.node? name = some n → n.body = .union ms → ms ≠ []
  distinct : ∀ {name n es}, m.node? name = some n → n.body = .deduction es →
    (es.filterMap Element.property).Nodup
  properties : ∀ {name n es}, m.node? name = some n → n.body = .deduction es →
    ∀ p ∈ es.filterMap Element.property, p ≠ reservedPropertyName ∧ isIdentifier p = true

theorem propertyNameFaults_eq_nil {owner property : String} :
    propertyNameFaults owner property = [] ↔
      property ≠ reservedPropertyName ∧ isIdentifier property = true := by
  rw [propertyNameFaults]
  split
  · simp_all
  · split <;> simp_all

theorem propertyFaults_eq_nil {owner : String} {seen properties : List String} :
    propertyFaults owner seen properties = [] ↔
      properties.Nodup ∧ (∀ p ∈ properties, p ∉ seen) ∧
        ∀ p ∈ properties, p ≠ reservedPropertyName ∧ isIdentifier p = true := by
  induction properties generalizing seen with
  | nil => simp [propertyFaults]
  | cons p properties ih =>
    rw [propertyFaults, List.append_eq_nil_iff, List.append_eq_nil_iff, ih,
      propertyNameFaults_eq_nil]
    by_cases hp : p ∈ seen
    · simp [hp]
    · simp only [hp, if_false, List.nodup_cons, List.mem_cons, not_or, forall_eq_or_imp]
      constructor
      · rintro ⟨⟨hname, -⟩, hnodup, hseen, hall⟩
        exact ⟨⟨fun h => (hseen p h).1 rfl, hnodup⟩, ⟨not_false, fun q hq => (hseen q hq).2⟩,
          hname, hall⟩
      · rintro ⟨⟨hmem, hnodup⟩, ⟨-, hseen⟩, hname, hall⟩
        exact ⟨⟨hname, trivial⟩, hnodup, fun q hq => ⟨fun h => hmem (h ▸ hq), hseen q hq⟩, hall⟩

theorem referenceFaults_eq_nil :
    m.referenceFaults = [] ↔
      ∀ e ∈ m.nodes.entries, ∀ r ∈ e.2.references, m.has r = true := by
  simp [referenceFaults, List.flatMap_eq_nil_iff, List.filter_eq_nil_iff]

theorem nameFaults_eq_nil :
    m.nameFaults = [] ↔ ∀ name ∈ m.names, isIdentifier name = true := by
  simp [nameFaults, List.filter_eq_nil_iff]

/-- **A model without faults is valid.** -/
theorem faults_eq_nil_iff : m.faults = [] ↔ m.IsValid := by
  rw [faults]
  simp only [List.append_eq_nil_iff, referenceFaults_eq_nil, nameFaults_eq_nil,
    List.flatMap_eq_nil_iff]
  constructor
  · rintro ⟨⟨⟨⟨-, hstart⟩, hrefs⟩, hnames⟩, hbodies⟩
    have hbody {name : String} {n : Node} (h : m.node? name = some n) :=
      hbodies (name, n) (node?_eq_some_iff.1 h)
    refine ⟨?_, hnames, fun h => hrefs (_, _) (node?_eq_some_iff.1 h), fun h hb => ?_,
      fun h hb => ?_, fun h hb => ?_⟩
    · cases hs : m.has m.start with
      | true => rfl
      | false =>
        rw [hs] at hstart
        cases hstart
    · have := hbody h
      rw [hb, Body.faults] at this
      split at this
      · cases this
      · assumption
    · have := hbody h
      rw [hb, Body.faults, propertyFaults_eq_nil] at this
      exact this.1
    · have := hbody h
      rw [hb, Body.faults, propertyFaults_eq_nil] at this
      exact this.2.2
  · intro h
    have hne : m.names ≠ [] := List.ne_nil_of_mem (has_iff.1 h.start)
    refine ⟨⟨⟨⟨if_neg hne, if_pos h.start⟩, fun e he => h.references (node?_eq_some_iff.2 he)⟩,
      h.names⟩, fun e he => ?_⟩
    have hnode := node?_eq_some_iff.2 he
    cases hb : e.2.body with
    | token pattern => rfl
    | deduction elements =>
      exact propertyFaults_eq_nil.2
        ⟨h.distinct hnode hb, fun _ _ => List.not_mem_nil, h.properties hnode hb⟩
    | union members => exact if_neg (h.members hnode hb)

end Model

end GrammarKit
