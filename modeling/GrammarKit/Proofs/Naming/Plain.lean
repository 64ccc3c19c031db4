import GrammarKit.Proofs.Naming.Casing
import GrammarKit.Proofs.Naming.Resolution
import Mathlib.Data.List.Nodup

/-!
# Plain names

Where the names of a model are ASCII and no type comes from outside, its names are found without
tables of characters.

* `plainNames`: the names for a node.
* `Model.hasPlainNames`: a check of all names.
* **`Model.isNameable_of_hasPlainNames`**: what the check grants.
* `Model.IsNameable.withMapping`: types from outside beside plain names.
* `namesOf_eq_plain`: the names themselves.
-/

namespace GrammarKit

open Code

/-- Whether a name is an ASCII identifier of code. -/
def isPlainIdent (name : String) : Bool := isIdentifier name && isPlainWord name

theorem isIdentifier_of_isPlainIdent {name : String} (h : isPlainIdent name = true) :
    Code.isIdentifier name = true := by
  rw [isPlainIdent, Bool.and_eq_true] at h
  exact isIdentifier_of_isPlainWord h.1 h.2

/-- The names for a node with a plain name, whose type is generated. -/
def plainNames (c : Naming) (e : NamedNode) : NodeNames where
  type := match e.2.kind with
    | .token => plainPascalCase e.1 ++ c.tokenSuffix
    | .deduction => plainPascalCase e.1 ++ c.nodeSuffix
    | .union => plainPascalCase e.1
  function := c.functionPrefix ++ plainSnakeCase e.1
  variant := plainPascalCase e.1
  module := plainSnakeCase e.1
  mapped := false

/-- Whether the variants of a node are distinct, if it is a union. -/
def Node.hasPlainMembers (n : Node) : Bool :=
  match n.body with
  | .union members => decide (members.map plainPascalCase).Nodup && members.all isIdentifier
  | _ => true

/-- Whether the names for a node are fit by themselves. -/
def NamedNode.hasPlainNames (c : Naming) (e : NamedNode) : Bool :=
  let names := plainNames c e
  isIdentifier e.1 && e.2.properties.all isIdentifier && e.2.hasPlainMembers &&
    [names.type, names.function, names.variant, names.module].all isPlainIdent &&
    !reservedTypeNames.contains names.type && !reservedFunctionNames.contains names.function &&
    e.2.properties.all (fun p => isPlainIdent (plainSnakeCase p)) &&
    decide (e.2.properties.map plainSnakeCase).Nodup

/-- **Whether the names for a model are plain, fit and distinct.** -/
def Model.hasPlainNames (c : Naming) (m : Model) : Bool :=
  decide (c.typeMapping.entries = []) && m.nodes.entries.all (NamedNode.hasPlainNames c) &&
    [NodeNames.type, NodeNames.function, NodeNames.variant, NodeNames.module].all fun f =>
      decide (m.nodes.entries.map fun e => f (plainNames c e)).Nodup

variable {c : Naming} {e : NamedNode}

theorem snakeIdent?_plain {name : String} (hname : isIdentifier name = true)
    (h : isPlainIdent (plainSnakeCase name) = true) :
    snakeIdent? name = some (plainSnakeCase name) := by
  unfold snakeIdent?
  simp only [snakeCase_ascii (isAscii_of_isIdentifier hname), isIdentifier_of_isPlainIdent h,
    if_true]

theorem variantName_plain {name : String} (hname : isIdentifier name = true) :
    variantName name = plainPascalCase name := pascalCase_ascii (isAscii_of_isIdentifier hname)

theorem functionName_plain {name : String} (hname : isIdentifier name = true) :
    functionName c name = c.functionPrefix ++ plainSnakeCase name := by
  rw [functionName, snakeCase_ascii (isAscii_of_isIdentifier hname)]

theorem mappedType?_of_nil (h : c.typeMapping.entries = []) (e : NamedNode) :
    mappedType? c e = none := by
  rw [mappedType?, Table.get?, h]
  rfl

theorem chosenType_plain (h : c.typeMapping.entries = []) (hname : isIdentifier e.1 = true) :
    chosenType c e = (plainNames c e).type := by
  rw [chosenType, mappedType?_of_nil h, Option.getD_none, typeName.eq_def,
    pascalCase_ascii (isAscii_of_isIdentifier hname)]
  rfl

theorem checkedVariant?_plain (hname : isIdentifier e.1 = true) {v : String}
    (h : checkedVariant? c e = some v) : v = plainPascalCase e.1 := by
  unfold checkedVariant? at h
  split at h
  · rw [← variantName_plain hname]
    exact (Option.some.inj h).symm
  · cases h

/-- A node that passes the check is nameable. -/
theorem NamedNode.isNameable_of_hasPlainNames (hmapping : c.typeMapping.entries = [])
    (h : e.hasPlainNames c = true) : NamedNode.IsNameable c e := by
  simp only [hasPlainNames, Bool.and_eq_true, List.all_cons, List.all_nil, Bool.and_true,
    Bool.not_eq_true', List.contains_eq_mem, decide_eq_true_eq, decide_eq_false_iff_not,
    List.all_eq_true] at h
  obtain ⟨⟨⟨⟨⟨⟨⟨hname, hproperties⟩, hmembers⟩, htype, hfunction, hvariant, hmodule⟩, hfreeType⟩,
    hfreeFunction⟩, hfields⟩, hdistinct⟩ := h
  have hmapped := mappedType?_of_nil hmapping e
  refine ⟨fun path hpath => ?_, fun _ => ?_, ?_, fun v hv => ?_,
    ⟨_, snakeIdent?_plain hname hmodule⟩, fun members hb => ?_,
    fun p hp => ⟨_, snakeIdent?_plain (hproperties p hp) (hfields p hp)⟩, ?_⟩
  · rw [hmapped] at hpath
    cases hpath
  · rw [chosenType_plain hmapping hname]
    exact ⟨isIdentifier_of_isPlainIdent htype, hfreeType⟩
  · rw [functionName_plain hname]
    exact ⟨isIdentifier_of_isPlainIdent hfunction, hfreeFunction⟩
  · rw [checkedVariant?_plain hname hv]
    exact isIdentifier_of_isPlainIdent hvariant
  · simp only [Node.hasPlainMembers, hb, Bool.and_eq_true, decide_eq_true_eq,
      List.all_eq_true] at hmembers
    have hmap : members.map variantName = members.map plainPascalCase :=
      List.map_congr_left fun x hx => variantName_plain (hmembers.2 x hx)
    rw [hmap]
    exact hmembers.1
  · intro p hp q hq field hpf hqf
    rw [snakeIdent?_plain (hproperties p hp) (hfields p hp)] at hpf
    rw [snakeIdent?_plain (hproperties q hq) (hfields q hq), ← hpf] at hqf
    exact List.inj_on_of_nodup_map hdistinct hp hq (Option.some.inj hqf).symm

/-- **A model that passes the check is nameable.** -/
theorem Model.isNameable_of_hasPlainNames {m : Model} (h : m.hasPlainNames c = true) :
    m.IsNameable c := by
  simp only [hasPlainNames, Bool.and_eq_true, List.all_cons, List.all_nil, Bool.and_true,
    decide_eq_true_eq, List.all_eq_true] at h
  obtain ⟨⟨hmapping, hnodes⟩, htypes, hfunctions, hvariants, hmodules⟩ := h
  have hword {e : NamedNode} (he : e ∈ m.nodes.entries) :
      isIdentifier e.1 = true ∧ isPlainIdent (plainSnakeCase e.1) = true := by
    have hplain := hnodes e he
    simp only [NamedNode.hasPlainNames, Bool.and_eq_true, List.all_cons, List.all_nil] at hplain
    exact ⟨hplain.1.1.1.1.1.1.1, hplain.1.1.1.1.2.2.2.2.1⟩
  refine ⟨fun e he => NamedNode.isNameable_of_hasPlainNames hmapping (hnodes e he), ?_⟩
  have htypes := List.pairwise_map.1 htypes
  have hfunctions := List.pairwise_map.1 hfunctions
  have hvariants := List.pairwise_map.1 hvariants
  have hmodules := List.pairwise_map.1 hmodules
  refine (htypes.and (hfunctions.and (hvariants.and hmodules))).imp_of_mem
    fun {a b} ha hb ⟨htype, hfunction, hvariant, hmodule⟩ => ⟨?_, ?_, fun v hvb hva => ?_, ?_⟩
  · rw [chosenType_plain hmapping (hword ha).1, chosenType_plain hmapping (hword hb).1]
    exact htype
  · rw [functionName_plain (hword ha).1, functionName_plain (hword hb).1]
    exact hfunction
  · exact hvariant
      ((checkedVariant?_plain (hword ha).1 hva).symm.trans (checkedVariant?_plain (hword hb).1 hvb))
  · intro s hsb hsa
    rw [chosenModule?, snakeIdent?_plain (hword ha).1 (hword ha).2] at hsa
    rw [chosenModule?, snakeIdent?_plain (hword hb).1 (hword hb).2, ← hsa] at hsb
    exact hmodule (Option.some.inj hsb).symm

/-- **Types from outside** leave a model nameable if they are paths for tokens and deductions, and
no type is the same as another one. -/
theorem Model.IsNameable.withMapping {m : Model} {types : Table String} (h : m.IsNameable c)
    (hmapping : c.typeMapping.entries = [])
    (hpaths : ∀ e ∈ m.nodes.entries, ∀ path,
      mappedType? { c with typeMapping := types } e = some path →
        e.2.kind ≠ .union ∧ (typePath? path).isSome = true)
    (hapart : m.nodes.entries.Pairwise fun a b =>
      chosenType { c with typeMapping := types } a ≠ chosenType { c with typeMapping := types } b) :
    m.IsNameable { c with typeMapping := types } := by
  have hvariant {e : NamedNode} (he : e ∈ m.nodes.entries) {v : String}
      (hv : checkedVariant? { c with typeMapping := types } e = some v) :
      checkedVariant? c e = some v := by
    unfold checkedVariant? at hv ⊢
    split at hv
    · rename_i hchecked
      have hkind : e.2.kind ≠ .union := by
        rcases hchecked with hkind | hmapped
        · exact hkind
        · obtain ⟨path, hpath⟩ := Option.isSome_iff_exists.1 hmapped
          exact (hpaths e he path hpath).1
      rw [if_pos (.inl hkind), hv]
    · cases hv
  refine ⟨fun e he => ?_, (hapart.and h.apart).imp_of_mem fun {a b} ha hb hab => ?_⟩
  · have hnode := h.nodes e he
    have hnone := mappedType?_of_nil hmapping e
    refine { hnode with
      path := fun path hpath => (hpaths e he path hpath).2
      type := fun hunmapped => ?_
      variant := fun v hv => hnode.variant v (hvariant he hv) }
    have htype := hnode.type hnone
    rw [chosenType, hnone] at htype
    rw [chosenType, hunmapped]
    exact htype
  · exact { hab.2 with
      type := hab.1
      variant := fun v hv he => hab.2.variant v (hvariant hb hv) (hvariant ha he) }

/-- The names for a model with plain names. -/
def plainNamesOf (c : Naming) (m : Model) : Names where
  nodes := m.nodes.map fun name node => plainNames c (name, node)
  fields := .ofList (m.properties.map fun p => (p, plainSnakeCase p))

theorem isMapped_plainNamesOf (m : Model) (name : String) :
    (plainNamesOf c m).isMapped name = false := by
  unfold Names.isMapped plainNamesOf
  rw [Table.get?_map]
  cases m.nodes.get? name <;> rfl

/-- **The names for a model that passes the check** are found without tables. -/
theorem namesOf_eq_plain {m : Model} (h : m.hasPlainNames c = true) :
    namesOf c m = plainNamesOf c m := by
  simp only [Model.hasPlainNames, Bool.and_eq_true, decide_eq_true_eq, List.all_eq_true] at h
  obtain ⟨⟨hmapping, hnodes⟩, -⟩ := h
  have hnames : ∀ e ∈ m.nodes.entries, nodeNames c e = plainNames c e := by
    intro e he
    have hplain := hnodes e he
    simp only [NamedNode.hasPlainNames, Bool.and_eq_true, List.all_cons, List.all_nil] at hplain
    have hname := hplain.1.1.1.1.1.1.1
    have hmodule := snakeIdent?_plain hname hplain.1.1.1.1.2.2.2.2.1
    unfold nodeNames
    rw [chosenType_plain hmapping hname, functionName_plain hname, variantName_plain hname,
      chosenModule?, hmodule, mappedType?_of_nil hmapping]
    rfl
  have hfields : (m.properties.filterMap fun p => (snakeIdent? p).map fun field => (p, field)) =
      m.properties.map fun p => (p, plainSnakeCase p) := by
    rw [← List.filterMap_eq_map]
    refine List.filterMap_congr fun p hp => ?_
    obtain ⟨e, he, hpe⟩ := List.mem_flatMap.1 hp
    have hplain := hnodes e he
    simp only [NamedNode.hasPlainNames, Bool.and_eq_true, List.all_eq_true] at hplain
    rw [snakeIdent?_plain (hplain.1.1.1.1.1.1.2 p hpe) (hplain.1.2 p hpe)]
    rfl
  have htable : (m.nodes.map fun name node => nodeNames c (name, node)) =
      m.nodes.map fun name node => plainNames c (name, node) := by
    refine Table.ext (List.map_congr_left fun e he => ?_)
    exact congrArg (Prod.mk e.1) (hnames e he)
  unfold namesOf plainNamesOf
  rw [htable, hfields]

end GrammarKit
