import GrammarKit.Proofs.Naming.Resolution
import GrammarKit.Stringifier.Generator
import Mathlib.Data.List.Basic

/-!
# The names that the generators look up

The plan of the types and the generated functions depend on the entries for the nodes of a model,
for what these refer to, and for its properties. Other entries have no effect.

* `planSchema_eq_ok_iff`: the plan of the types for a model.
* `Model.mentioned`: the nodes whose names are looked up.
* `Names.AgreeOn`: names with the same entries for a model.
* **`SchemaPlan.build_congr`**, **`StringifierPlan.stringifier_congr`**: such names give the same
  types and the same functions.
-/

namespace GrammarKit

open Code

/-- **Types are planned** for a model without faults whose nodes are nameable. -/
theorem planSchema_eq_ok_iff {m : Model} {c : Naming} {config : SchemaConfig} {p : SchemaPlan} :
    planSchema m c config = .ok p ↔
      m.faults = [] ∧ m.IsNameable c ∧ p = .build m (namesOf c m) config.includeDocumentation := by
  unfold planSchema
  by_cases hfaults : m.faults = []
  · rw [if_neg (not_not_intro hfaults)]
    constructor
    · intro h
      split at h
      · rename_i names hnames
        obtain ⟨rfl, hnameable⟩ := resolveNames_eq_ok_iff.1 hnames
        exact ⟨hfaults, hnameable, (Except.ok.inj h).symm⟩
      · cases h
    · rintro ⟨-, hnameable, rfl⟩
      rw [resolveNames_eq_ok_iff.2 ⟨rfl, hnameable⟩]
  · simp [hfaults]

/-- **The nodes whose names are looked up**: the start node, all nodes and all they refer to. -/
def Model.mentioned (m : Model) : List String :=
  m.start :: m.nodes.entries.flatMap fun e => e.1 :: e.2.references

/-- **Names with the same entries for a model.** -/
structure Names.AgreeOn (m : Model) (names other : Names) : Prop where
  nodes : ∀ name ∈ m.mentioned, other.nodes.get? name = names.nodes.get? name
  fields : ∀ p ∈ m.properties, other.fields.get? p = names.fields.get? p

namespace Model

variable {m : Model} {e : NamedNode}

theorem start_mentioned : m.start ∈ m.mentioned := List.mem_cons_self

theorem name_mentioned (he : e ∈ m.nodes.entries) : e.1 ∈ m.mentioned :=
  List.mem_cons_of_mem _ (List.mem_flatMap.2 ⟨e, he, List.mem_cons_self⟩)

theorem reference_mentioned (he : e ∈ m.nodes.entries) {r : String} (hr : r ∈ e.2.references) :
    r ∈ m.mentioned :=
  List.mem_cons_of_mem _ (List.mem_flatMap.2 ⟨e, he, List.mem_cons_of_mem _ hr⟩)

theorem target_mentioned (he : e ∈ m.nodes.entries) {elements : List Element}
    (hb : e.2.body = .deduction elements) {x : Element} (hx : x ∈ elements) :
    x.target ∈ m.mentioned :=
  reference_mentioned he (by rw [Node.references, hb]; exact List.mem_map_of_mem hx)

theorem member_mentioned (he : e ∈ m.nodes.entries) {members : List String}
    (hb : e.2.body = .union members) {x : String} (hx : x ∈ members) : x ∈ m.mentioned :=
  reference_mentioned he (by rw [Node.references, hb]; exact hx)

theorem mem_properties (he : e ∈ m.nodes.entries) {elements : List Element}
    (hb : e.2.body = .deduction elements) {x : Element} (hx : x ∈ elements) {p : String}
    (hp : x.property = some p) : p ∈ m.properties :=
  List.mem_flatMap.2 ⟨e, he, by
    rw [Node.properties, hb]
    exact List.mem_filterMap.2 ⟨x, hx, hp⟩⟩

theorem namesOf_mentioned {kind : NodeKind} {name : String} (h : name ∈ m.namesOf kind) :
    name ∈ m.mentioned := by
  obtain ⟨e, he, rfl⟩ := List.mem_map.1 h
  exact name_mentioned (List.mem_of_mem_filter he)

end Model

namespace Names.AgreeOn

variable {m : Model} {names other : Names} (h : names.AgreeOn m other) {name : String}
  {e : NamedNode}

include h

section Mentioned

variable (hname : name ∈ m.mentioned)

include hname

theorem lookup (f : NodeNames → String) : other.lookup f name = names.lookup f name := by
  rw [Names.lookup, Names.lookup, h.nodes name hname]

theorem typeOf : other.typeOf name = names.typeOf name := h.lookup hname _

theorem functionOf : other.functionOf name = names.functionOf name := h.lookup hname _

theorem variantOf : other.variantOf name = names.variantOf name := h.lookup hname _

theorem moduleOf : other.moduleOf name = names.moduleOf name := h.lookup hname _

theorem isMapped : other.isMapped name = names.isMapped name := by
  rw [Names.isMapped, Names.isMapped, h.nodes name hname]

theorem armOf : GrammarKit.armOf other name = GrammarKit.armOf names name := by
  rw [GrammarKit.armOf, GrammarKit.armOf, h.variantOf hname, h.functionOf hname]

end Mentioned

theorem fieldOf {p : String} (hp : p ∈ m.properties) : other.fieldOf p = names.fieldOf p := by
  rw [Names.fieldOf, Names.fieldOf, h.fields p hp]

/-! ## Types -/

section Node

variable (he : e ∈ m.nodes.entries)

include he

theorem tokenDecl? (docs : Bool) :
    SchemaPlan.tokenDecl? other docs e = SchemaPlan.tokenDecl? names docs e := by
  have hname := Model.name_mentioned he
  simp only [SchemaPlan.tokenDecl?, h.typeOf hname, h.variantOf hname, h.isMapped hname]

theorem unionDecl? (docs : Bool) :
    SchemaPlan.unionDecl? m other docs e = SchemaPlan.unionDecl? m names docs e := by
  have hname := Model.name_mentioned he
  cases hb : e.2.body with
  | token pattern => simp only [SchemaPlan.unionDecl?, hb]
  | deduction elements => simp only [SchemaPlan.unionDecl?, hb]
  | union members =>
    have hvariants : members.map (SchemaPlan.variantDecl m other) =
        members.map (SchemaPlan.variantDecl m names) := by
      refine List.map_congr_left fun x hx => ?_
      have hmember := Model.member_mentioned he hb hx
      simp only [SchemaPlan.variantDecl, h.typeOf hmember, h.variantOf hmember, h.isMapped hmember]
    simp only [SchemaPlan.unionDecl?, hb, hvariants, h.typeOf hname, h.isMapped hname]

theorem deductionDecl? (docs : Bool) :
    SchemaPlan.deductionDecl? other docs e = SchemaPlan.deductionDecl? names docs e := by
  have hname := Model.name_mentioned he
  cases hb : e.2.body with
  | token pattern => simp only [SchemaPlan.deductionDecl?, hb]
  | union members => simp only [SchemaPlan.deductionDecl?, hb]
  | deduction elements =>
    have hfields : elements.filterMap (SchemaPlan.fieldDecl? other) =
        elements.filterMap (SchemaPlan.fieldDecl? names) := by
      refine List.filterMap_congr fun x hx => ?_
      have htarget := Model.target_mentioned he hb hx
      cases hp : x.property with
      | none => simp only [SchemaPlan.fieldDecl?, hp, Option.map_none]
      | some p =>
        have hproperty := Model.mem_properties he hb hx hp
        simp only [SchemaPlan.fieldDecl?, hp, Option.map_some, h.typeOf htarget,
          h.fieldOf hproperty]
    simp only [SchemaPlan.deductionDecl?, hb, hfields, h.typeOf hname, h.variantOf hname,
      h.moduleOf hname, h.isMapped hname]

/-! ## Functions -/

theorem nodeFunction : GrammarKit.nodeFunction m other e = GrammarKit.nodeFunction m names e := by
  have hname := Model.name_mentioned he
  unfold GrammarKit.nodeFunction
  simp only [h.functionOf hname, h.typeOf hname, h.isMapped hname]
  split
  · rfl
  · cases hb : e.2.body with
    | token pattern => rfl
    | deduction elements =>
      have hparts :
          elements.filterMap (partOf? m other) = elements.filterMap (partOf? m names) := by
        refine List.filterMap_congr fun x hx => ?_
        have htarget := Model.target_mentioned he hb hx
        unfold partOf?
        cases hp : x.property with
        | none => rfl
        | some p => simp only [h.functionOf htarget, h.fieldOf (Model.mem_properties he hb hx hp)]
      simp only [hparts]
    | union members =>
      have harms : (members.map fun x => (GrammarKit.armOf other x).tokens
          (typeTokens (names.typeOf e.1))) = members.map fun x =>
            (GrammarKit.armOf names x).tokens (typeTokens (names.typeOf e.1)) := by
        refine List.map_congr_left fun x hx => ?_
        rw [h.armOf (Model.member_mentioned he hb hx)]
      simp only [harms]

theorem nodeWarnings : GrammarKit.nodeWarnings m other e = GrammarKit.nodeWarnings m names e := by
  simp only [GrammarKit.nodeWarnings, h.isMapped (Model.name_mentioned he)]

theorem nodeIdentifiers {config : StringifierConfig} {unit : String}
    {path : Option (List Token)} :
    StringifierPlan.nodeIdentifiers ⟨m, other, config, unit, path⟩ e =
      StringifierPlan.nodeIdentifiers ⟨m, names, config, unit, path⟩ e := by
  have hname := Model.name_mentioned he
  unfold StringifierPlan.nodeIdentifiers
  simp only [h.functionOf hname, h.variantOf hname, h.moduleOf hname, h.isMapped hname]
  cases hb : e.2.body with
  | token pattern => rfl
  | deduction elements =>
    have hfields : (elements.filterMap Element.property).map other.fieldOf =
        (elements.filterMap Element.property).map names.fieldOf := by
      refine List.map_congr_left fun p hp => ?_
      obtain ⟨x, hx, hp⟩ := List.mem_filterMap.1 hp
      exact h.fieldOf (Model.mem_properties he hb hx hp)
    simp only [hfields]
  | union members =>
    have hvariants : members.map other.variantOf = members.map names.variantOf :=
      List.map_congr_left fun x hx => h.variantOf (Model.member_mentioned he hb hx)
    simp only [hvariants]

end Node

theorem valueArms : GrammarKit.valueArms m other = GrammarKit.valueArms m names := by
  refine List.map_congr_left fun x hx => ?_
  rw [h.armOf ((List.mem_append.1 hx).elim Model.namesOf_mentioned Model.namesOf_mentioned)]

theorem helperItems : GrammarKit.helperItems m other = GrammarKit.helperItems m names := by
  rw [GrammarKit.helperItems, GrammarKit.helperItems, h.functionOf Model.start_mentioned,
    h.valueArms]

end Names.AgreeOn

variable {m : Model} {names other : Names}

/-- **The plan of the types depends on the entries for the model alone.** -/
theorem SchemaPlan.build_congr (h : names.AgreeOn m other) (docs : Bool) :
    build m other docs = build m names docs := by
  have htokens := List.filterMap_congr fun e he => h.tokenDecl? he docs
  have hunions := List.filterMap_congr fun e he => h.unionDecl? he docs
  have hdeductions := List.filterMap_congr fun e he => h.deductionDecl? he docs
  rw [build, build, h.typeOf Model.start_mentioned, htokens, hunions, hdeductions]

/-- **The generated functions depend on the entries for the model alone.** -/
theorem StringifierPlan.stringifier_congr {p : StringifierPlan}
    (h : p.names.AgreeOn p.model other) :
    { p with names := other }.stringifier = p.stringifier ∧
      { p with names := other }.warnings = p.warnings ∧
      { p with names := other }.identifiers = p.identifiers := by
  obtain ⟨m, names, config, unit, path⟩ := p
  have hfunctions : m.nodes.entries.map (nodeFunction m other) =
      m.nodes.entries.map (nodeFunction m names) :=
    List.map_congr_left fun e he => h.nodeFunction he
  have hfiles : m.nodes.entries.map (nodeFile ⟨m, other, config, unit, path⟩) =
      m.nodes.entries.map (nodeFile ⟨m, names, config, unit, path⟩) := by
    refine List.map_congr_left fun e he => ?_
    simp only [nodeFile, h.moduleOf (Model.name_mentioned he), h.nodeFunction he]
  have hmodules : m.names.map other.moduleOf = m.names.map names.moduleOf := by
    refine List.map_congr_left fun x hx => ?_
    obtain ⟨e, he, rfl⟩ := List.mem_map.1 hx
    exact h.moduleOf (Model.name_mentioned he)
  have hwarnings : m.nodes.entries.flatMap (nodeWarnings m other) =
      m.nodes.entries.flatMap (nodeWarnings m names) :=
    List.flatMap_congr fun e he => h.nodeWarnings he
  have hidentifiers : m.nodes.entries.flatMap (nodeIdentifiers ⟨m, other, config, unit, path⟩) =
      m.nodes.entries.flatMap (nodeIdentifiers ⟨m, names, config, unit, path⟩) :=
    List.flatMap_congr fun e he => h.nodeIdentifiers he
  refine ⟨?_, hwarnings, hidentifiers⟩
  simp only [stringifier, code, items, functions, types, typeItems, importItem, separateFiles,
    typesFile, indexItems, h.helperItems, hfunctions, hfiles, hmodules]

end GrammarKit
