import GrammarKit.Naming.Resolution
import GrammarKit.Proofs.Model.Valid

/-!
# What resolved names grant

Names are given out only if each of them is fit for code and no two nodes share one.

* `NamedNode.IsNameable`: the names for a node are fit by themselves.
* `NamedNode.Apart`: two nodes share no name.
* **`resolveNames_eq_ok_iff`**: names are given out exactly if all nodes are nameable and apart.
* `get?_namesOf`, `get?_fields`: the entries of the names that are given out.
-/

namespace GrammarKit

variable {c : Naming} {m : Model} {e : NamedNode} {earlier nodes : List NamedNode}

/-! ## Single names -/

theorem identifierErrors_eq_nil {reserved : List String} {node name : String} :
    identifierErrors reserved node name = [] ↔
      Code.isIdentifier name = true ∧ name ∉ reserved := by
  unfold identifierErrors
  by_cases hident : Code.isIdentifier name = true
  · by_cases hreserved : name ∈ reserved <;> simp [hident, hreserved]
  · simp [hident]

theorem collisionErrors_eq_nil {nameOf : NamedNode → Option String} {node name : String} :
    collisionErrors earlier nameOf node name = [] ↔ ∀ a ∈ earlier, nameOf a ≠ some name := by
  unfold collisionErrors
  split
  · rename_i first hfirst
    have hmem := List.mem_of_find?_eq_some hfirst
    have hname : nameOf first = some name := by simpa using List.find?_some hfirst
    simp only [List.cons_ne_nil, false_iff]
    exact fun h => h first hmem hname
  · rename_i hnone
    simpa using List.find?_eq_none.1 hnone

/-- A name in snake case is an identifier, as it is or with the mark of raw names. -/
theorem snakeIdent?_cases {name s : String} (h : snakeIdent? name = some s) :
    Code.isIdentifier s = true ∧ (s = snakeCase name ∨ s = "r#" ++ snakeCase name) := by
  simp only [snakeIdent?] at h
  split at h
  · rename_i hsnake
    cases h
    exact ⟨hsnake, .inl rfl⟩
  · split at h
    · cases h
    · rename_i hraw
      cases h
      rw [Bool.or_eq_true, not_or, Bool.not_eq_true', Bool.not_eq_false] at hraw
      exact ⟨hraw.2, .inr rfl⟩

theorem isIdentifier_of_snakeIdent? {name s : String} (h : snakeIdent? name = some s) :
    Code.isIdentifier s = true := (snakeIdent?_cases h).1

theorem moduleName_of_snakeIdent? {name s : String} (h : snakeIdent? name = some s) :
    moduleName name = .ok s := by
  unfold moduleName snakeIdent
  simp only [h]

/-! ## Members and fields -/

theorem memberErrors_eq_nil {owner : String} {seen members : List String} :
    memberErrors owner seen members = [] ↔
      (members.map variantName).Nodup ∧ ∀ x ∈ members, variantName x ∉ seen := by
  induction members generalizing seen with
  | nil => simp [memberErrors]
  | cons x members ih =>
    rw [memberErrors, List.append_eq_nil_iff, ih, List.map_cons, List.nodup_cons,
      List.forall_mem_cons]
    by_cases hx : variantName x ∈ seen
    · simp [hx]
    · simp only [hx, if_false, List.mem_map, List.mem_cons, not_or]
      constructor
      · rintro ⟨-, hnodup, hseen⟩
        exact ⟨⟨fun ⟨y, hy, he⟩ => (hseen y hy).1 he, hnodup⟩, not_false,
          fun y hy => (hseen y hy).2⟩
      · rintro ⟨⟨hmem, hnodup⟩, -, hseen⟩
        exact ⟨trivial, hnodup, fun y hy => ⟨fun he => hmem ⟨y, hy, he⟩, hseen y hy⟩⟩

/-- Two of the properties with the same field are the same. -/
def FieldsApart (properties : List String) : Prop :=
  ∀ p ∈ properties, ∀ q ∈ properties, ∀ field,
    snakeIdent? p = some field → snakeIdent? q = some field → p = q

/-- One more property is apart from those before it if the first of them with its field is the
property itself. -/
theorem fieldsApart_concat {properties : List String} {p field : String}
    (hp : snakeIdent? p = some field) (h : FieldsApart properties) :
    FieldsApart (properties ++ [p]) ↔
      ∀ first, properties.find? (fun q => snakeIdent? q = some field) = some first → first = p := by
  have hmem (q : String) : q ∈ properties ++ [p] ↔ q ∈ properties ∨ q = p := by simp
  constructor
  · intro hall first hfirst
    exact hall first ((hmem _).2 (.inl (List.mem_of_find?_eq_some hfirst))) p
      ((hmem _).2 (.inr rfl)) field (by simpa using List.find?_some hfirst) hp
  · intro hfirst
    -- a property with the same field is the first one with it, since those before are apart
    have hnew (q : String) (hq : q ∈ properties) (hfield : snakeIdent? q = some field) : q = p := by
      obtain ⟨first, hfind⟩ := Option.isSome_iff_exists.1
        (List.find?_isSome (p := fun q => snakeIdent? q = some field).2
          ⟨q, hq, by simpa using hfield⟩)
      rw [← hfirst first hfind]
      exact h q hq first (List.mem_of_find?_eq_some hfind) field hfield
        (by simpa using List.find?_some hfind)
    intro q hq r hr f hqf hrf
    rcases (hmem q).1 hq with hqs | rfl <;> rcases (hmem r).1 hr with hrs | rfl
    · exact h q hqs r hrs f hqf hrf
    · exact hnew q hqs (hqf.trans (hrf.symm.trans hp))
    · exact (hnew r hrs (hrf.trans (hqf.symm.trans hp))).symm
    · rfl

theorem fieldErrors_eq_nil {owner : String} {before properties : List String}
    (h : FieldsApart before) :
    fieldErrors owner before properties = [] ↔
      (∀ p ∈ properties, ∃ field, snakeIdent? p = some field) ∧
        FieldsApart (before ++ properties) := by
  induction properties generalizing before with
  | nil => simp [fieldErrors, h]
  | cons p properties ih =>
    rw [fieldErrors, List.append_eq_nil_iff, List.forall_mem_cons]
    cases hp : snakeIdent? p with
    | none => simp
    | some field =>
      have hconcat := fieldsApart_concat hp h
      have hsplit : before ++ p :: properties = (before ++ [p]) ++ properties := by simp
      simp only [Option.some.injEq, exists_eq', true_and, hsplit]
      refine (and_congr_left' (b := FieldsApart (before ++ [p])) ?_).trans ?_
      · rw [hconcat]
        cases before.find? (fun q => snakeIdent? q = some field) <;> simp
      constructor
      · rintro ⟨hnew, hrest⟩
        exact (ih hnew).1 hrest
      · rintro ⟨hfields, hall⟩
        have hnew : FieldsApart (before ++ [p]) := fun q hq r hr =>
          hall q (List.mem_append_left _ hq) r (List.mem_append_left _ hr)
        exact ⟨hnew, (ih hnew).2 ⟨hfields, hall⟩⟩

/-! ## Names for a node -/

/-- **The names for a node are fit by themselves.** -/
structure NamedNode.IsNameable (c : Naming) (e : NamedNode) : Prop where
  path : ∀ path, mappedType? c e = some path → (Code.typePath? path).isSome = true
  type : mappedType? c e = none →
    Code.isIdentifier (chosenType c e) = true ∧ chosenType c e ∉ reservedTypeNames
  function : Code.isIdentifier (functionName c e.1) = true ∧
    functionName c e.1 ∉ reservedFunctionNames
  variant : ∀ v, checkedVariant? c e = some v → Code.isIdentifier v = true
  module : ∃ s, chosenModule? e = some s
  members : ∀ members, e.2.body = .union members → (members.map variantName).Nodup
  fields : ∀ p ∈ e.2.properties, ∃ field, snakeIdent? p = some field
  fieldsApart : FieldsApart e.2.properties

/-- **Two nodes share no name.** -/
structure NamedNode.Apart (c : Naming) (a b : NamedNode) : Prop where
  type : chosenType c a ≠ chosenType c b
  function : functionName c a.1 ≠ functionName c b.1
  variant : ∀ v, checkedVariant? c b = some v → checkedVariant? c a ≠ some v
  module : ∀ s, chosenModule? b = some s → chosenModule? a ≠ some s

theorem typeErrors_eq_nil :
    typeErrors c earlier e = [] ↔
      (∀ path, mappedType? c e = some path → (Code.typePath? path).isSome = true) ∧
      (mappedType? c e = none →
        Code.isIdentifier (chosenType c e) = true ∧ chosenType c e ∉ reservedTypeNames) ∧
      ∀ a ∈ earlier, chosenType c a ≠ chosenType c e := by
  rw [typeErrors, List.append_eq_nil_iff, collisionErrors_eq_nil]
  simp only [ne_eq, Option.some.injEq]
  cases hpath : mappedType? c e with
  | none => simp [identifierErrors_eq_nil, and_assoc]
  | some path => by_cases h : (Code.typePath? path).isSome = true <;> simp [h]

theorem functionErrors_eq_nil :
    functionErrors c earlier e = [] ↔
      (Code.isIdentifier (functionName c e.1) = true ∧
        functionName c e.1 ∉ reservedFunctionNames) ∧
      ∀ a ∈ earlier, functionName c a.1 ≠ functionName c e.1 := by
  rw [functionErrors, List.append_eq_nil_iff, collisionErrors_eq_nil, identifierErrors_eq_nil]
  simp only [ne_eq, Option.some.injEq]

theorem variantErrors_eq_nil :
    variantErrors c earlier e = [] ↔
      (∀ v, checkedVariant? c e = some v → Code.isIdentifier v = true) ∧
      ∀ a ∈ earlier, ∀ v, checkedVariant? c e = some v → checkedVariant? c a ≠ some v := by
  unfold variantErrors
  cases hv : checkedVariant? c e with
  | none => simp
  | some v => simp [identifierErrors_eq_nil, collisionErrors_eq_nil]

theorem moduleErrors_eq_nil :
    moduleErrors earlier e = [] ↔ (∃ s, chosenModule? e = some s) ∧
      ∀ a ∈ earlier, ∀ s, chosenModule? e = some s → chosenModule? a ≠ some s := by
  unfold moduleErrors
  cases hs : chosenModule? e with
  | none => simp
  | some s =>
    have hident : Code.isIdentifier s = true := isIdentifier_of_snakeIdent? hs
    simp [identifierErrors_eq_nil, collisionErrors_eq_nil, hident]

theorem partErrors_eq_nil :
    partErrors e = [] ↔
      (∀ members, e.2.body = .union members → (members.map variantName).Nodup) ∧
      (∀ p ∈ e.2.properties, ∃ field, snakeIdent? p = some field) ∧
      FieldsApart e.2.properties := by
  have hnil : FieldsApart [] := fun p hp => absurd hp List.not_mem_nil
  unfold partErrors Node.properties
  cases e.2.body with
  | token pattern => simp [hnil]
  | union members => simp [memberErrors_eq_nil, hnil]
  | deduction elements => simp [fieldErrors_eq_nil hnil]

/-- The names for a node are without errors if they are fit, and apart from those before them. -/
theorem nodeErrors_eq_nil :
    nodeErrors c earlier e = [] ↔
      NamedNode.IsNameable c e ∧ ∀ a ∈ earlier, NamedNode.Apart c a e := by
  simp only [nodeErrors, List.append_eq_nil_iff, typeErrors_eq_nil, functionErrors_eq_nil,
    variantErrors_eq_nil, moduleErrors_eq_nil, partErrors_eq_nil]
  constructor
  · rintro ⟨⟨⟨⟨⟨hpath, htype, htypes⟩, hfunction, hfunctions⟩, hvariant, hvariants⟩, hmodule,
      hmodules⟩, hmembers, hfields, hapart⟩
    exact ⟨⟨hpath, htype, hfunction, hvariant, hmodule, hmembers, hfields, hapart⟩, fun a ha =>
      ⟨htypes a ha, hfunctions a ha, hvariants a ha, hmodules a ha⟩⟩
  · rintro ⟨hfit, hapart⟩
    exact ⟨⟨⟨⟨⟨hfit.path, hfit.type, fun a ha => (hapart a ha).type⟩, hfit.function, fun a ha =>
      (hapart a ha).function⟩, hfit.variant, fun a ha => (hapart a ha).variant⟩, hfit.module,
      fun a ha => (hapart a ha).module⟩, hfit.members, hfit.fields, hfit.fieldsApart⟩

/-! ## Names for a model -/

/-- **Every node of a model is nameable**, and no two of them share a name. -/
structure Model.IsNameable (c : Naming) (m : Model) : Prop where
  nodes : ∀ e ∈ m.nodes.entries, NamedNode.IsNameable c e
  apart : m.nodes.entries.Pairwise (NamedNode.Apart c)

theorem namingErrors_eq_nil :
    namingErrors c earlier nodes = [] ↔
      (∀ e ∈ nodes, NamedNode.IsNameable c e) ∧ nodes.Pairwise (NamedNode.Apart c) ∧
        ∀ a ∈ earlier, ∀ e ∈ nodes, NamedNode.Apart c a e := by
  induction nodes generalizing earlier with
  | nil => simp [namingErrors]
  | cons e nodes ih =>
    rw [namingErrors, List.append_eq_nil_iff, nodeErrors_eq_nil, ih]
    simp only [List.forall_mem_cons, List.pairwise_cons, List.forall_mem_append]
    constructor
    · rintro ⟨⟨hfit, hhead⟩, hnodes, hpairs, hearlier, hself⟩
      exact ⟨⟨hfit, hnodes⟩, ⟨hself.1, hpairs⟩, fun a ha => ⟨hhead a ha, hearlier a ha⟩⟩
    · rintro ⟨⟨hfit, hnodes⟩, ⟨hself, hpairs⟩, hearlier⟩
      exact ⟨⟨hfit, fun a ha => (hearlier a ha).1⟩, hnodes, hpairs,
        fun a ha => (hearlier a ha).2, hself, by simp⟩

/-- **Names are given out exactly if all nodes are nameable and apart.** -/
theorem resolveNames_eq_ok_iff {names : Names} :
    resolveNames c m = .ok names ↔ names = namesOf c m ∧ m.IsNameable c := by
  have hiff : namingErrors c [] m.nodes.entries = [] ↔ m.IsNameable c := by
    rw [namingErrors_eq_nil]
    exact ⟨fun h => ⟨h.1, h.2.1⟩, fun h => ⟨h.nodes, h.apart, by simp⟩⟩
  unfold resolveNames
  split
  · rename_i hnil
    simp [hiff.1 hnil, eq_comm]
  · rename_i hne
    have hnot : ¬ m.IsNameable c := fun h => hne (hiff.2 h)
    simp [hnot]

/-! ## Entries -/

/-- The names for a node. -/
theorem get?_namesOf (name : String) :
    (namesOf c m).nodes.get? name = (m.node? name).map fun n => nodeNames c (name, n) :=
  Table.get?_map _ _ name

theorem module_nodeNames (c : Naming) (e : NamedNode) :
    (nodeNames c e).module = (snakeIdent? e.1).getD e.1 := by
  simp only [nodeNames, chosenModule?]

/-- The field for a property. -/
theorem get?_fields {p field : String} (hp : p ∈ m.properties)
    (hfield : snakeIdent? p = some field) :
    (namesOf c m).fields.get? p = some field := by
  have hmem : (p, field) ∈ m.properties.filterMap fun p =>
      (snakeIdent? p).map fun field => (p, field) :=
    List.mem_filterMap.2 ⟨p, hp, by rw [hfield, Option.map_some]⟩
  refine Table.get?_ofList_of_unique hmem fun b hb => ?_
  obtain ⟨q, -, hq⟩ := List.mem_filterMap.1 hb
  obtain ⟨field', hfield', he⟩ := Option.map_eq_some_iff.1 hq
  obtain ⟨rfl, rfl⟩ := Prod.mk.inj he
  exact Option.some.inj (hfield'.symm.trans hfield)

section Entry

variable {name : String} {n : Node} (hn : m.node? name = some n)

include hn

theorem typeOf_namesOf : (namesOf c m).typeOf name = chosenType c (name, n) := by
  simp [Names.typeOf, Names.lookup, get?_namesOf, hn, nodeNames]

theorem functionOf_namesOf : (namesOf c m).functionOf name = functionName c name := by
  simp [Names.functionOf, Names.lookup, get?_namesOf, hn, nodeNames]

theorem variantOf_namesOf : (namesOf c m).variantOf name = variantName name := by
  simp [Names.variantOf, Names.lookup, get?_namesOf, hn, nodeNames]

theorem isMapped_namesOf :
    (namesOf c m).isMapped name = (mappedType? c (name, n)).isSome := by
  simp [Names.isMapped, get?_namesOf, hn, nodeNames]

theorem isMapped_namesOf_eq_false_iff :
    (namesOf c m).isMapped name = false ↔ mappedType? c (name, n) = none := by
  rw [isMapped_namesOf hn, Option.isSome_eq_false_iff, Option.isNone_iff_eq_none]

end Entry

end GrammarKit
