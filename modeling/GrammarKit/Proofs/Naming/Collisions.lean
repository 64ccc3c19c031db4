import GrammarKit.Proofs.Naming.Plain
import Mathlib.Data.List.Pairwise

/-!
# Collisions of names

Every name of a node is held against the names of the same sort that the nodes before it have.
Where names are refused, the collisions that are reported are exactly the pairs of nodes with a
name in common, the first of which is the first node with this name.

* `NameSort`, `nameOf`: the four names of a node that are held against each other.
* `Model.IsCollisionFree`: what is asked of the names for a model, each sort by itself.
* `Model.isCollisionFree_iff`: this is what it takes for all nodes to be nameable and apart.
* `Model.Collide`, `collision_mem_namingErrors_iff`: the collisions that are reported.
* **`resolveNames_isOk_iff`**: when names are given out, and which collisions stand in their way.
-/

namespace GrammarKit

variable {c : Naming} {m : Model} {e : NamedNode} {earlier nodes : List NamedNode}

/-! ## Models without collisions -/

/-- The nodes with a variant of their own: tokens, deductions and all nodes with a type from
outside. -/
def Model.variantNodes (c : Naming) (m : Model) : List NamedNode :=
  m.nodes.entries.filter fun e => e.2.kind ≠ .union ∨ (mappedType? c e).isSome

/-- **What is asked of the names for a model**: those of each sort are fit for code, and those of
different nodes differ. -/
structure Model.IsCollisionFree (c : Naming) (m : Model) : Prop where
  functions : ∀ e ∈ m.nodes.entries, Code.isIdentifier (functionName c e.1) = true ∧
    functionName c e.1 ∉ reservedFunctionNames
  functionsDiffer : (m.nodes.entries.map fun e => functionName c e.1).Nodup
  types : ∀ e ∈ m.nodes.entries, mappedType? c e = none →
    Code.isIdentifier (typeName c e.2.kind e.1) = true ∧
      typeName c e.2.kind e.1 ∉ reservedTypeNames
  paths : ∀ e ∈ m.nodes.entries, ∀ path, mappedType? c e = some path →
    (Code.typePath? path).isSome = true
  typesDiffer : (m.nodes.entries.map (chosenType c)).Nodup
  variants : ∀ e ∈ m.variantNodes c, Code.isIdentifier (variantName e.1) = true
  variantsDiffer : ((m.variantNodes c).map fun e => variantName e.1).Nodup
  modules : ∀ e ∈ m.nodes.entries, ∃ s, moduleName e.1 = .ok s
  modulesDiffer : (m.nodes.entries.map fun e => moduleName e.1).Nodup
  members : ∀ e ∈ m.nodes.entries, ∀ members, e.2.body = .union members →
    (members.map variantName).Nodup
  fields : ∀ e ∈ m.nodes.entries, ∀ p ∈ e.2.properties, ∃ s, fieldName p = .ok s
  fieldsDiffer : ∀ e ∈ m.nodes.entries, ∀ p ∈ e.2.properties, ∀ q ∈ e.2.properties,
    p ≠ q → fieldName p ≠ fieldName q

theorem snakeIdent_eq_ok_iff {name s : String} :
    snakeIdent name = .ok s ↔ snakeIdent? name = some s := by
  unfold snakeIdent
  cases snakeIdent? name <;> simp

/-- A name that gives no identifier is reported with the name itself, so other names differ from
it. -/
theorem snakeIdent_ne_iff {name other : String} (h : name ≠ other) :
    snakeIdent name ≠ snakeIdent other ↔
      ∀ s, snakeIdent? other = some s → snakeIdent? name ≠ some s := by
  unfold snakeIdent
  cases snakeIdent? name <;> cases snakeIdent? other <;> simp [h]

theorem checkedVariant?_eq_some_iff {v : String} :
    checkedVariant? c e = some v ↔
      (e.2.kind ≠ .union ∨ (mappedType? c e).isSome) ∧ variantName e.1 = v := by
  unfold checkedVariant?
  split <;> simp [*]

theorem chosenType_of_unmapped (h : mappedType? c e = none) :
    chosenType c e = typeName c e.2.kind e.1 := by
  rw [chosenType, h, Option.getD_none]

/-- The nodes of a model have different names. -/
theorem Model.pairwise_name_ne (m : Model) : m.nodes.entries.Pairwise fun a b => a.1 ≠ b.1 :=
  List.pairwise_map.1 m.nodes.nodup

/-- Nodes are apart if their names of each sort differ. -/
theorem Model.pairwise_apart_iff :
    m.nodes.entries.Pairwise (NamedNode.Apart c) ↔
      (m.nodes.entries.map (chosenType c)).Nodup ∧
      (m.nodes.entries.map fun e => functionName c e.1).Nodup ∧
      ((m.variantNodes c).map fun e => variantName e.1).Nodup ∧
      (m.nodes.entries.map fun e => moduleName e.1).Nodup := by
  simp only [List.Nodup, List.pairwise_map, variantNodes, List.pairwise_filter, decide_eq_true_eq]
  constructor
  · intro h
    refine ⟨h.imp NamedNode.Apart.type, h.imp NamedNode.Apart.function,
      h.imp fun hab ha hb he => ?_, (h.and m.pairwise_name_ne).imp fun ⟨hab, hne⟩ => ?_⟩
    · exact hab.variant _ (checkedVariant?_eq_some_iff.2 ⟨hb, rfl⟩)
        (checkedVariant?_eq_some_iff.2 ⟨ha, he⟩)
    · exact (snakeIdent_ne_iff hne).2 hab.module
  · rintro ⟨htypes, hfunctions, hvariants, hmodules⟩
    refine (htypes.and (hfunctions.and (hvariants.and (hmodules.and m.pairwise_name_ne)))).imp
      fun ⟨htype, hfunction, hvariant, hmodule, hne⟩ => ⟨htype, hfunction, fun v hb ha => ?_,
        (snakeIdent_ne_iff hne).1 hmodule⟩
    obtain ⟨hb, hv⟩ := checkedVariant?_eq_some_iff.1 hb
    obtain ⟨ha, he⟩ := checkedVariant?_eq_some_iff.1 ha
    exact hvariant ha hb (he.trans hv.symm)

/-- **A model is free of collisions** exactly if all of its nodes are nameable and apart. -/
theorem Model.isCollisionFree_iff : m.IsCollisionFree c ↔ m.IsNameable c := by
  constructor
  · intro h
    refine ⟨fun e he => ?_, pairwise_apart_iff.2
      ⟨h.typesDiffer, h.functionsDiffer, h.variantsDiffer, h.modulesDiffer⟩⟩
    refine ⟨h.paths e he, fun hmapped => ?_, h.functions e he, fun v hv => ?_, ?_,
      h.members e he, fun p hp => ?_, fun p hp q hq s hps hqs => ?_⟩
    · rw [chosenType_of_unmapped hmapped]
      exact h.types e he hmapped
    · obtain ⟨hchecked, rfl⟩ := checkedVariant?_eq_some_iff.1 hv
      exact h.variants e (List.mem_filter.2 ⟨he, by simpa using hchecked⟩)
    · obtain ⟨s, hs⟩ := h.modules e he
      exact ⟨s, snakeIdent_eq_ok_iff.1 hs⟩
    · obtain ⟨s, hs⟩ := h.fields e he p hp
      exact ⟨s, snakeIdent_eq_ok_iff.1 hs⟩
    · by_contra hne
      exact h.fieldsDiffer e he p hp q hq hne
        ((snakeIdent_eq_ok_iff.2 hps).trans (snakeIdent_eq_ok_iff.2 hqs).symm)
  · intro h
    obtain ⟨htypes, hfunctions, hvariants, hmodules⟩ := pairwise_apart_iff.1 h.apart
    refine ⟨fun e he => (h.nodes e he).function, hfunctions, fun e he hmapped => ?_,
      fun e he => (h.nodes e he).path, htypes, fun e he => ?_, hvariants, fun e he => ?_, hmodules,
      fun e he => (h.nodes e he).members, fun e he p hp => ?_, fun e he p hp q hq hne => ?_⟩
    · rw [← chosenType_of_unmapped hmapped]
      exact (h.nodes e he).type hmapped
    · obtain ⟨he, hchecked⟩ := List.mem_filter.1 he
      exact (h.nodes e he).variant _ (checkedVariant?_eq_some_iff.2 ⟨by simpa using hchecked, rfl⟩)
    · obtain ⟨s, hs⟩ := (h.nodes e he).module
      exact ⟨s, snakeIdent_eq_ok_iff.2 hs⟩
    · obtain ⟨s, hs⟩ := (h.nodes e he).fields p hp
      exact ⟨s, snakeIdent_eq_ok_iff.2 hs⟩
    · exact (snakeIdent_ne_iff hne).2 fun s hqs hps =>
        hne ((h.nodes e he).fieldsApart p hp q hq s hps hqs)

/-! ## Collisions that are reported -/

/-- The sorts of names that a node has. -/
inductive NameSort where
  | type
  | function
  | variant
  | module
deriving Repr, DecidableEq

/-- The name of a node that is held against those of the same sort. -/
def nameOf (c : Naming) : NameSort → NamedNode → Option String
  | .type, e => some (chosenType c e)
  | .function, e => some (functionName c e.1)
  | .variant, e => checkedVariant? c e
  | .module, e => chosenModule? e

theorem NameSort.exists_iff {P : NameSort → Prop} :
    (∃ sort, P sort) ↔ P .type ∨ P .function ∨ P .variant ∨ P .module := by
  constructor
  · rintro ⟨sort, h⟩
    cases sort <;> simp [h]
  · rintro (h | h | h | h) <;> exact ⟨_, h⟩

/-- The first of some nodes that has a name is called `first`. -/
def IsFirst (names : NamedNode → Option String) (name first : String)
    (nodes : List NamedNode) : Prop :=
  ∃ front a between, nodes = front ++ a :: between ∧ names a = some name ∧
    (∀ x ∈ front, names x ≠ some name) ∧ a.1 = first

/-- **Two nodes collide** under a name: the second one has it, and the first one is the first of
the nodes before it that has the same. -/
def Model.Collide (c : Naming) (m : Model) (name first second : String) : Prop :=
  ∃ sort earlier e later, m.nodes.entries = earlier ++ e :: later ∧
    nameOf c sort e = some name ∧ e.1 = second ∧ IsFirst (nameOf c sort) name first earlier

theorem collision_notMem_identifierErrors {reserved : List String} {node id name first second : String} :
    .collision name first second ∉ identifierErrors reserved node id := by
  unfold identifierErrors
  split
  · simp
  · split <;> simp

theorem collision_notMem_memberErrors {owner name first second : String}
    {seen members : List String} :
    .collision name first second ∉ memberErrors owner seen members := by
  induction members generalizing seen with
  | nil => exact List.not_mem_nil
  | cons x members ih =>
    rw [memberErrors, List.mem_append, not_or]
    refine ⟨?_, ih⟩
    split <;> simp

theorem collision_notMem_fieldErrors {owner name first second : String}
    {before properties : List String} :
    .collision name first second ∉ fieldErrors owner before properties := by
  induction properties generalizing before with
  | nil => exact List.not_mem_nil
  | cons p properties ih =>
    rw [fieldErrors, List.mem_append, not_or]
    refine ⟨?_, ih⟩
    split
    · split
      · split <;> simp
      · exact List.not_mem_nil
    · simp

theorem collision_notMem_partErrors {name first second : String} :
    .collision name first second ∉ partErrors e := by
  unfold partErrors
  split
  · exact List.not_mem_nil
  · exact collision_notMem_memberErrors
  · exact collision_notMem_fieldErrors

theorem collision_mem_collisionErrors_iff {names : NamedNode → Option String}
    {node id name first second : String} :
    .collision name first second ∈ collisionErrors earlier names node id ↔
      some id = some name ∧ node = second ∧ IsFirst names name first earlier := by
  have hfirst (a : NamedNode) : earlier.find? (fun x => names x = some id) = some a ↔
      ∃ front between, earlier = front ++ a :: between ∧ names a = some id ∧
        ∀ x ∈ front, names x ≠ some id := by
    simp only [List.find?_eq_some_iff_append, decide_eq_true_eq, Bool.not_eq_true',
      decide_eq_false_iff_not]
    constructor
    · rintro ⟨ha, front, between, hsplit, hfront⟩
      exact ⟨front, between, hsplit, ha, hfront⟩
    · rintro ⟨front, between, hsplit, ha, hfront⟩
      exact ⟨ha, front, between, hsplit, hfront⟩
  unfold collisionErrors IsFirst
  constructor
  · intro h
    split at h
    · rename_i a ha
      obtain ⟨front, between, hsplit, hname, hfront⟩ := (hfirst a).1 ha
      cases List.mem_singleton.1 h
      exact ⟨rfl, rfl, front, a, between, hsplit, hname, hfront, rfl⟩
    · cases h
  · rintro ⟨hid, rfl, front, a, between, hsplit, hname, hfront, rfl⟩
    obtain rfl := Option.some.inj hid
    rw [(hfirst a).2 ⟨front, between, hsplit, hname, hfront⟩]
    exact List.mem_singleton_self _

/-- The collisions of a node: a name of it that an earlier node has as well. -/
theorem collision_mem_nodeErrors_iff {name first second : String} :
    .collision name first second ∈ nodeErrors c earlier e ↔
      ∃ sort, nameOf c sort e = some name ∧ e.1 = second ∧
        IsFirst (nameOf c sort) name first earlier := by
  have htype : .collision name first second ∈ typeErrors c earlier e ↔
      some (chosenType c e) = some name ∧ e.1 = second ∧
        IsFirst (nameOf c .type) name first earlier := by
    unfold typeErrors
    rw [List.mem_append, collision_mem_collisionErrors_iff]
    refine or_iff_right ?_
    split
    · split <;> simp
    · exact collision_notMem_identifierErrors
  have hfunction : .collision name first second ∈ functionErrors c earlier e ↔
      some (functionName c e.1) = some name ∧ e.1 = second ∧
        IsFirst (nameOf c .function) name first earlier := by
    unfold functionErrors
    rw [List.mem_append, collision_mem_collisionErrors_iff]
    exact or_iff_right collision_notMem_identifierErrors
  have hvariant : .collision name first second ∈ variantErrors c earlier e ↔
      checkedVariant? c e = some name ∧ e.1 = second ∧
        IsFirst (nameOf c .variant) name first earlier := by
    unfold variantErrors
    cases checkedVariant? c e with
    | none => simp
    | some v =>
      rw [List.mem_append, collision_mem_collisionErrors_iff]
      exact or_iff_right collision_notMem_identifierErrors
  have hmodule : .collision name first second ∈ moduleErrors earlier e ↔
      chosenModule? e = some name ∧ e.1 = second ∧
        IsFirst (nameOf c .module) name first earlier := by
    unfold moduleErrors
    cases chosenModule? e with
    | none => simp
    | some s =>
      rw [List.mem_append, collision_mem_collisionErrors_iff]
      exact or_iff_right collision_notMem_identifierErrors
  rw [NameSort.exists_iff, nodeErrors]
  simp only [List.mem_append, htype, hfunction, hvariant, hmodule, collision_notMem_partErrors,
    or_false, or_assoc]
  rfl

/-- What is wrong with the names for nodes is wrong with one of them, given those before it. -/
theorem mem_namingErrors_iff {error : NamingError} :
    error ∈ namingErrors c earlier nodes ↔ ∃ front e back, nodes = front ++ e :: back ∧
      error ∈ nodeErrors c (earlier ++ front) e := by
  induction nodes generalizing earlier with
  | nil => simp [namingErrors]
  | cons x nodes ih =>
    rw [namingErrors, List.mem_append, ih]
    constructor
    · rintro (h | ⟨front, e, back, rfl, h⟩)
      · exact ⟨[], x, nodes, rfl, by rwa [List.append_nil]⟩
      · exact ⟨x :: front, e, back, rfl, by rwa [List.append_cons]⟩
    · rintro ⟨front, e, back, hsplit, h⟩
      cases front with
      | nil =>
        obtain ⟨rfl, rfl⟩ := List.cons.inj hsplit
        exact .inl (by rwa [List.append_nil] at h)
      | cons y front =>
        obtain ⟨rfl, rfl⟩ := List.cons.inj hsplit
        exact .inr ⟨front, e, back, rfl, by rwa [List.append_cons] at h⟩

/-- **The collisions that are reported** are exactly those of the nodes. -/
theorem collision_mem_namingErrors_iff {name first second : String} :
    .collision name first second ∈ namingErrors c [] m.nodes.entries ↔
      m.Collide c name first second := by
  simp only [mem_namingErrors_iff, collision_mem_nodeErrors_iff, List.nil_append, Model.Collide]
  constructor
  · rintro ⟨earlier, e, later, hsplit, sort, hname, hsecond, hfirst⟩
    exact ⟨sort, earlier, e, later, hsplit, hname, hsecond, hfirst⟩
  · rintro ⟨sort, earlier, e, later, hsplit, hname, hsecond, hfirst⟩
    exact ⟨earlier, e, later, hsplit, sort, hname, hsecond, hfirst⟩

/-- **Nodes that collide** are two nodes, the first one earlier, and share the name. -/
theorem Model.Collide.exists_nodes {name first second : String}
    (h : m.Collide c name first second) :
    first ≠ second ∧ ∃ sort a b, [a, b].Sublist m.nodes.entries ∧ a.1 = first ∧ b.1 = second ∧
      nameOf c sort a = some name ∧ nameOf c sort b = some name := by
  obtain ⟨sort, _, b, later, hsplit, hb, rfl, front, a, between, rfl, ha, -, rfl⟩ := h
  have hpair : [a, b].Sublist m.nodes.entries := by
    have hfront : [a].Sublist (front ++ a :: between) := List.singleton_sublist.2 (by simp)
    rw [hsplit]
    exact hfront.append (List.singleton_sublist.2 List.mem_cons_self)
  refine ⟨?_, sort, a, b, hpair, rfl, rfl, ha, hb⟩
  exact (List.pairwise_cons.1 (m.pairwise_name_ne.sublist hpair)).1 b (List.mem_singleton_self b)

/-- **Names are given out exactly if the model is free of collisions.** The collisions that are
reported otherwise are those of its nodes: each names two different nodes that share a name, the
first one earlier in the model. -/
theorem resolveNames_isOk_iff (c : Naming) (m : Model) :
    ((∃ names, resolveNames c m = .ok names) ↔ m.IsCollisionFree c) ∧
    ∀ errors, resolveNames c m = .error errors → ∀ name first second,
      (.collision name first second ∈ errors ↔ m.Collide c name first second) ∧
      (.collision name first second ∈ errors → first ≠ second ∧
        ∃ sort a b, [a, b].Sublist m.nodes.entries ∧ a.1 = first ∧ b.1 = second ∧
          nameOf c sort a = some name ∧ nameOf c sort b = some name) := by
  refine ⟨?_, fun errors herrors name first second => ?_⟩
  · simp only [resolveNames_eq_ok_iff, exists_eq_left, Model.isCollisionFree_iff]
  · have hmem : .collision name first second ∈ errors ↔ m.Collide c name first second := by
      unfold resolveNames at herrors
      split at herrors
      · cases herrors
      · cases herrors
        exact collision_mem_namingErrors_iff
    exact ⟨hmem, fun h => (hmem.1 h).exists_nodes⟩

/-- Two tokens whose names have the same words. -/
def Model.twins : Model :=
  (((new "Twins" "Twin").insert "a_b" (.token (.literal "x"))).insert "AB"
    (.token (.literal "y"))).insert "Twin" (.union ["a_b", "AB"])

/-- Twins get no names: their types would be one. -/
theorem resolveNames_isOk_iff_twins : ∃ errors, resolveNames {} .twins = .error errors ∧
    .collision "ABToken" "a_b" "AB" ∈ errors ∧ "a_b" ≠ "AB" ∧
      ¬ Model.twins.IsCollisionFree {} := by
  obtain ⟨a, b, twin, hsplit, ha, hb, hfirst, hsecond⟩ : ∃ a b twin,
      Model.twins.nodes.entries = [a, b, twin] ∧ chosenType {} a = "ABToken" ∧
        chosenType {} b = "ABToken" ∧ a.1 = "a_b" ∧ b.1 = "AB" := by
    refine ⟨_, _, _, rfl, ?_, ?_, rfl, rfl⟩
    · rw [chosenType_plain rfl (by decide)]
      decide
    · rw [chosenType_plain rfl (by decide)]
      decide
  have hcollide : Model.twins.Collide {} "ABToken" "a_b" "AB" :=
    ⟨.type, [a], b, [twin], hsplit, congrArg some hb, hsecond, [], a, [], rfl, congrArg some ha,
      fun _ hx => absurd hx List.not_mem_nil, hfirst⟩
  have hfree : ¬ Model.twins.IsCollisionFree {} := by
    intro h
    have htypes := h.typesDiffer
    rw [hsplit] at htypes
    simp [ha, hb] at htypes
  obtain ⟨hiff, hcollisions⟩ := resolveNames_isOk_iff {} .twins
  cases herrors : resolveNames {} Model.twins with
  | ok names => exact absurd (hiff.1 ⟨names, herrors⟩) hfree
  | error errors =>
    obtain ⟨hmem, hpair⟩ := hcollisions errors herrors "ABToken" "a_b" "AB"
    exact ⟨errors, rfl, hmem.2 hcollide, (hpair (hmem.2 hcollide)).1, hfree⟩

end GrammarKit
