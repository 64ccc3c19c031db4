import GrammarKit.Proofs.Naming.Plain
import GrammarKit.Proofs.Parser.Acceptance
import GrammarKit.Proofs.Schema.Declarations
import GrammarKit.Proofs.Schema.Lookup
import GrammarKit.Proofs.Stringifier.Writers
import Mathlib.Data.List.Nodup
import Mathlib.Data.List.Pairwise

/-!
# Types and functions that fit together

The types of a model and the functions that write its values are generated apart, from the same
names. Where these are resolved, each enumeration and the function on it have the same variants,
each structure and the function on it the same fields, and no name stands in for a missing one.

* `Model.IsNameable.apart_of_ne`: two nodes of a model share no name.
* `SchemaPlan.valueVariants_build`: the variants for all values.
* `Names.IsAligned`: types and functions fit together.
* **`isAligned_of_resolveNames`**: resolved names are aligned.
-/

namespace GrammarKit

open Code

/-! ## Nodes that share no name -/

theorem NamedNode.Apart.symm {c : Naming} {a b : NamedNode} (h : NamedNode.Apart c a b) :
    NamedNode.Apart c b a where
  type := h.type.symm
  function := h.function.symm
  variant v ha hb := h.variant v hb ha
  module s ha hb := h.module s hb ha

instance (c : Naming) : Std.Symm (NamedNode.Apart c) := ⟨fun _ _ h => h.symm⟩

variable {c : Naming} {m : Model} {names : Names} {docs : Bool}

namespace Model.IsNameable

variable (h : m.IsNameable c)

include h

/-- **Two nodes of a model share no name.** -/
theorem apart_of_ne {a b : NamedNode} (ha : a ∈ m.nodes.entries) (hb : b ∈ m.nodes.entries)
    (hne : a.1 ≠ b.1) : NamedNode.Apart c a b :=
  h.apart.forall ha hb fun he => hne (congrArg Prod.fst he)

theorem nameable {name : String} {n : Node} (hn : m.node? name = some n) :
    NamedNode.IsNameable c (name, n) := h.nodes _ (node?_eq_some_iff.1 hn)

/-- The functions for two nodes have different names. -/
theorem functionName_inj {name other : String} {n k : Node} (hn : m.node? name = some n)
    (hk : m.node? other = some k) (he : functionName c name = functionName c other) :
    name = other := by
  by_contra hne
  exact (h.apart_of_ne (node?_eq_some_iff.1 hn) (node?_eq_some_iff.1 hk) hne).function he

/-- The variants for two nodes that are no unions have different names. -/
theorem variantName_inj {name other : String} {n k : Node} (hn : m.node? name = some n)
    (hk : m.node? other = some k) (hnUnion : n.kind ≠ .union) (hkUnion : k.kind ≠ .union)
    (he : variantName name = variantName other) : name = other := by
  by_contra hne
  have hchecked {x : String} {l : Node} (hl : l.kind ≠ .union) :
      checkedVariant? c (x, l) = some (variantName x) := if_pos (.inl hl)
  refine (h.apart_of_ne (node?_eq_some_iff.1 hn) (node?_eq_some_iff.1 hk) hne).variant _
    (hchecked hkUnion) ?_
  rw [hchecked hnUnion, he]

end Model.IsNameable

/-! ## The variants for all values -/

theorem Model.node?_of_mem_namesOf {kind : NodeKind} {name : String} (h : name ∈ m.namesOf kind) :
    ∃ n, m.node? name = some n ∧ n.kind = kind := by
  obtain ⟨e, he, rfl⟩ := List.mem_map.1 h
  obtain ⟨hmem, hkind⟩ := List.mem_filter.1 he
  exact ⟨e.2, node?_eq_some_iff.2 hmem, by simpa using hkind⟩

theorem Model.nodup_namesOf (m : Model) (kind : NodeKind) : (m.namesOf kind).Nodup :=
  m.nodes.nodup.sublist (List.filter_sublist.map _)

/-- Nodes of two kinds are different nodes. -/
theorem Model.nodup_namesOf_append (m : Model) {kind other : NodeKind} (h : kind ≠ other) :
    (m.namesOf kind ++ m.namesOf other).Nodup := by
  refine List.Nodup.append (m.nodup_namesOf kind) (m.nodup_namesOf other) fun x hx hy => h ?_
  obtain ⟨n, hn, rfl⟩ := node?_of_mem_namesOf hx
  obtain ⟨k, hk, rfl⟩ := node?_of_mem_namesOf hy
  rw [hn] at hk
  exact congrArg Node.kind (Option.some.inj hk)

/-- What is named by one of two kinds is a node of that kind. -/
theorem Model.node?_of_mem_append {kind other : NodeKind} {name : String}
    (h : name ∈ m.namesOf kind ++ m.namesOf other) :
    ∃ n, m.node? name = some n ∧ (n.kind = kind ∨ n.kind = other) := by
  rcases List.mem_append.1 h with h | h
  · obtain ⟨n, hn, hkind⟩ := node?_of_mem_namesOf h
    exact ⟨n, hn, .inl hkind⟩
  · obtain ⟨n, hn, hkind⟩ := node?_of_mem_namesOf h
    exact ⟨n, hn, .inr hkind⟩

/-- Declarations for the nodes of one kind, seen through `f`, are made from their names. -/
theorem map_filterMap_namesOf {α β : Type} {decl? : NamedNode → Option α} {f : α → β}
    {g : String → β} {kind : NodeKind}
    (h : ∀ e, (decl? e).map f = if e.2.kind = kind then some (g e.1) else none) :
    (m.nodes.entries.filterMap decl?).map f = (m.namesOf kind).map g := by
  rw [List.map_filterMap, Model.namesOf, List.map_map]
  induction m.nodes.entries with
  | nil => rfl
  | cons e entries ih =>
    rw [List.filterMap_cons, h, List.filter_cons]
    by_cases hkind : e.2.kind = kind
    · simp only [hkind, if_true, decide_true, List.map_cons, ih, Function.comp_apply]
    · simp only [hkind, if_false, decide_false, Bool.false_eq_true, ih]

namespace SchemaPlan

/-- The variant for a node among all values. -/
def sumVariant (names : Names) (name : String) : SumVariant :=
  ⟨name, names.variantOf name, names.typeOf name⟩

theorem tokenVariants_build (docs : Bool) :
    (build m names docs).tokenVariants = (m.namesOf .token).map (sumVariant names) := by
  refine map_filterMap_namesOf fun e => ?_
  cases hb : e.2.body <;> simp [tokenDecl?, hb, Node.kind, sumVariant]

/-- **The variants for all values**: those for tokens, then those for deductions. -/
theorem valueVariants_build :
    (build m names docs).valueVariants =
      (m.namesOf .token ++ m.namesOf .deduction).map (sumVariant names) := by
  have hdeductions : (build m names docs).deductions.map
      (fun d => (⟨d.node, d.variant, d.type⟩ : SumVariant)) =
        (m.namesOf .deduction).map (sumVariant names) := by
    refine map_filterMap_namesOf fun e => ?_
    cases hb : e.2.body <;> simp [deductionDecl?, hb, Node.kind, sumVariant]
  rw [valueVariants, tokenVariants_build, hdeductions, List.map_append]

section Declared

variable {e : NamedNode} (he : e ∈ m.nodes.entries)

include he

/-- The declaration for a node is declared if it is not mapped. -/
theorem mem_declared {α : Type} {decl? : NamedNode → Option α} {mapped : α → Bool} {d : α}
    (hd : decl? e = some d) (hmapped : mapped d = false) :
    d ∈ (m.nodes.entries.filterMap decl?).filter (!mapped ·) := by
  rw [List.mem_filter, List.mem_filterMap]
  exact ⟨⟨e, he, hd⟩, by rw [hmapped]; rfl⟩

variable (hmapped : names.isMapped e.1 = false)

include hmapped

/-- The declaration for a token that is not mapped. -/
theorem exists_declaredToken (docs : Bool) {pattern : Pattern}
    (hb : e.2.body = .token pattern) :
    ∃ d ∈ (build m names docs).declaredTokens, d.type = names.typeOf e.1 := by
  have hdecl : ∃ d, tokenDecl? names docs e = some d ∧ d.type = names.typeOf e.1 ∧
      d.mapped = names.isMapped e.1 := by
    simp [tokenDecl?, hb]
  obtain ⟨d, hd, htype, hflag⟩ := hdecl
  exact ⟨d, mem_declared he hd (hflag.trans hmapped), htype⟩

/-- The declaration for a union that is not mapped. -/
theorem exists_declaredUnion (docs : Bool) {members : List String}
    (hb : e.2.body = .union members) :
    ∃ d ∈ (build m names docs).declaredUnions, d.node = e.1 ∧ d.type = names.typeOf e.1 ∧
      d.variants = members.map (variantDecl m names) := by
  have hdecl : ∃ d, unionDecl? m names docs e = some d ∧ d.mapped = names.isMapped e.1 ∧
      d.node = e.1 ∧ d.type = names.typeOf e.1 ∧
      d.variants = members.map (variantDecl m names) := by
    simp [unionDecl?, hb]
  obtain ⟨d, hd, hflag, hparts⟩ := hdecl
  exact ⟨d, mem_declared he hd (hflag.trans hmapped), hparts⟩

/-- The declaration for a deduction that is not mapped. -/
theorem exists_declaredDeduction (docs : Bool) {elements : List Element}
    (hb : e.2.body = .deduction elements) :
    ∃ d ∈ (build m names docs).declaredDeductions, d.node = e.1 ∧ d.type = names.typeOf e.1 ∧
      d.fields = elements.filterMap (fieldDecl? names) := by
  have hdecl : ∃ d, deductionDecl? names docs e = some d ∧ d.mapped = names.isMapped e.1 ∧
      d.node = e.1 ∧ d.type = names.typeOf e.1 ∧
      d.fields = elements.filterMap (fieldDecl? names) := by
    simp [deductionDecl?, hb]
  obtain ⟨d, hd, hflag, hparts⟩ := hdecl
  exact ⟨d, mem_declared he hd (hflag.trans hmapped), hparts⟩

end Declared

/-- The fields of a deduction are those of its properties, in order. -/
theorem map_field_filterMap (elements : List Element) :
    (elements.filterMap (fieldDecl? names)).map FieldDecl.field =
      (elements.filterMap Element.property).map names.fieldOf := by
  rw [List.map_filterMap, List.map_filterMap]
  refine List.filterMap_congr fun e _ => ?_
  cases hp : e.property <;> simp [fieldDecl?, hp]

end SchemaPlan

/-! ## Alignment -/

/-- **The types and the functions that are generated with these names fit together.** -/
structure Names.IsAligned (m : Model) (names : Names) (docs : Bool) : Prop where
  /-- Every node whose names are looked up has an entry, with a module of its own. -/
  nodes : ∀ name ∈ m.mentioned, ∃ n,
    names.nodes.get? name = some n ∧ moduleName name = .ok n.module
  /-- Every property has a field. -/
  fields : ∀ p ∈ m.properties, ∃ field, names.fields.get? p = some field
  /-- For the types, nothing else is looked up. -/
  types : ∀ other, names.AgreeOn m other →
    SchemaPlan.build m other docs = SchemaPlan.build m names docs
  /-- For the functions, nothing else is looked up. -/
  functions : ∀ p : StringifierPlan, p.model = m → p.names = names →
    ∀ other, names.AgreeOn m other → { p with names := other }.stringifier = p.stringifier ∧
      { p with names := other }.warnings = p.warnings ∧
      { p with names := other }.identifiers = p.identifiers
  /-- A function that is generated for a node is its writer, under a name of its own. -/
  printed : ∀ e ∈ m.nodes.entries, nodeFunction m names e = (writerOf m names e).tokens ∧
    ∀ f ∈ m.nodes.entries, (writerOf m names f).function = (writerOf m names e).function → f = e
  /-- The functions that are generated are those for nodes, and the one on all values. -/
  generated : ∀ p : StringifierPlan, p.model = m → p.names = names →
    (∀ e ∈ m.nodes.entries, (writerOf m names e).tokens ∈ p.items) ∧
      (Writer.mk "stringify_node" "AnyNode" (.dispatch (valueArms m names))).tokens ∈ p.items
  /-- The function on all values has an arm for each variant of the enumeration that is declared for
  them, in order, which asks the function for the variant's node. -/
  values : (sumOf "AnyNode" (SchemaPlan.build m names docs).valueVariants).tokens ∈
      (SchemaPlan.build m names docs).items ∧
    (SchemaPlan.build m names docs).valueVariants.map SumVariant.variant =
      (valueArms m names).map Arm.variant ∧
    ((valueArms m names).map Arm.variant).Nodup ∧
    List.Forall₂ (fun (v : SumVariant) (a : Arm) => ∃ e ∈ m.nodes.entries, e.1 = v.node ∧
        (writerOf m names e).function = a.function)
      (SchemaPlan.build m names docs).valueVariants (valueArms m names)
  /-- The function on a union has an arm for each variant of its enumeration, in order. -/
  unions : ∀ e ∈ m.nodes.entries, ∀ members, e.2.body = .union members →
    names.isMapped e.1 = false →
    ∃ d ∈ (SchemaPlan.build m names docs).declaredUnions, ∃ arms, d.node = e.1 ∧
      d.sum.tokens ∈ (SchemaPlan.build m names docs).items ∧
      (writerOf m names e).type = d.type ∧ (writerOf m names e).task = .dispatch arms ∧
      d.variants.map VariantDecl.variant = arms.map Arm.variant ∧ (arms.map Arm.variant).Nodup
  /-- The function on a deduction reads each field that is declared, in order. -/
  deductions : ∀ e ∈ m.nodes.entries, ∀ elements, e.2.body = .deduction elements →
    names.isMapped e.1 = false →
    ∃ d ∈ (SchemaPlan.build m names docs).declaredDeductions, ∃ parts, d.node = e.1 ∧
      d.tokens ∈ (SchemaPlan.build m names docs).items ∧
      (writerOf m names e).type = d.type ∧ (writerOf m names e).task = .join parts ∧
      d.fields.map FieldDecl.field = parts.filterMap Part.field? ∧
      (d.fields.map FieldDecl.field).Nodup

/-- Names are looked up for nodes of the model only. -/
theorem Model.IsValid.exists_node (hv : m.IsValid) {name : String} (h : name ∈ m.mentioned) :
    ∃ n, m.node? name = some n := by
  rw [← has_iff_node?]
  rcases List.mem_cons.1 h with rfl | h
  · exact hv.start
  · obtain ⟨e, he, hname⟩ := List.mem_flatMap.1 h
    rcases List.mem_cons.1 hname with rfl | hr
    · exact has_iff.2 (List.mem_map_of_mem he)
    · exact hv.references (node?_eq_some_iff.2 he) _ hr

namespace Names

/-- Each arm of the function on all values asks the function for the node of its variant. -/
theorem forall₂_valueArms :
    List.Forall₂ (fun (v : SumVariant) (a : Arm) => ∃ e ∈ m.nodes.entries, e.1 = v.node ∧
        (writerOf m (namesOf c m) e).function = a.function)
      (SchemaPlan.build m (namesOf c m) docs).valueVariants (valueArms m (namesOf c m)) := by
  rw [SchemaPlan.valueVariants_build, valueArms, List.forall₂_map_left_iff,
    List.forall₂_map_right_iff, List.forall₂_same]
  intro name hname
  obtain ⟨n, hn, -⟩ := Model.node?_of_mem_append hname
  exact ⟨(name, n), Model.node?_eq_some_iff.1 hn, rfl, rfl⟩

variable (h : m.IsNameable c)

include h

/-- The entry for a node. -/
theorem exists_entry {name : String} {n : Node} (hn : m.node? name = some n) :
    ∃ k, (namesOf c m).nodes.get? name = some k ∧ moduleName name = .ok k.module := by
  obtain ⟨s, hs⟩ := (h.nameable hn).module
  refine ⟨nodeNames c (name, n), by rw [get?_namesOf, hn, Option.map_some], ?_⟩
  have hsnake : snakeIdent? name = some s := hs
  rw [module_nodeNames, hsnake, Option.getD_some, moduleName_of_snakeIdent? hsnake]

/-- The field for a property. -/
theorem exists_field {p : String} (hp : p ∈ m.properties) :
    ∃ field, (namesOf c m).fields.get? p = some field := by
  obtain ⟨e, he, hpe⟩ := List.mem_flatMap.1 hp
  obtain ⟨field, hfield⟩ := (h.nodes e he).fields p hpe
  exact ⟨field, get?_fields hp hfield⟩

/-- A function is generated for one node only. -/
theorem function_inj {e f : NamedNode} (he : e ∈ m.nodes.entries) (hf : f ∈ m.nodes.entries)
    (hfunction : (writerOf m (namesOf c m) f).function = (writerOf m (namesOf c m) e).function) :
    f = e := by
  have hen : m.node? e.1 = some e.2 := Model.node?_eq_some_iff.2 he
  have hfn : m.node? f.1 = some f.2 := Model.node?_eq_some_iff.2 hf
  simp only [writerOf, functionOf_namesOf hen, functionOf_namesOf hfn] at hfunction
  have hname : f.1 = e.1 := h.functionName_inj hfn hen hfunction
  have hnode : f.2 = e.2 := by
    rw [hname, hen] at hfn
    exact (Option.some.inj hfn).symm
  exact Prod.ext hname hnode

/-- The variants for all values are distinct. -/
theorem nodup_valueArms : ((valueArms m (namesOf c m)).map Arm.variant).Nodup := by
  rw [valueArms, List.map_map]
  have hnode {name : String} (hname : name ∈ m.namesOf .token ++ m.namesOf .deduction) :
      ∃ n, m.node? name = some n ∧ n.kind ≠ .union := by
    obtain ⟨n, hn, hkind⟩ := Model.node?_of_mem_append hname
    exact ⟨n, hn, fun hunion => by rcases hkind with h | h <;> cases hunion.symm.trans h⟩
  refine List.Nodup.map_on (fun x hx y hy hxy => ?_) (m.nodup_namesOf_append (by decide))
  obtain ⟨n, hn, hnUnion⟩ := hnode hx
  obtain ⟨k, hk, hkUnion⟩ := hnode hy
  simp only [Function.comp_apply, armOf, variantOf_namesOf hn, variantOf_namesOf hk] at hxy
  exact h.variantName_inj hn hk hnUnion hkUnion hxy

section Valid

variable (hv : m.IsValid) {e : NamedNode} (he : e ∈ m.nodes.entries)

include hv he

/-- The variants of a union are distinct. -/
theorem nodup_memberArms {members : List String} (hb : e.2.body = .union members) :
    ((members.map (armOf (namesOf c m))).map Arm.variant).Nodup := by
  have hvariants : (members.map (armOf (namesOf c m))).map Arm.variant =
      members.map variantName := by
    rw [List.map_map]
    refine List.map_congr_left fun x hx => ?_
    obtain ⟨n, hn⟩ := hv.exists_node (Model.member_mentioned he hb hx)
    exact variantOf_namesOf hn
  rw [hvariants]
  exact (h.nodes e he).members members hb

/-- The fields of a deduction are distinct. -/
theorem nodup_fields {elements : List Element} (hb : e.2.body = .deduction elements) :
    ((elements.filterMap Element.property).map (namesOf c m).fieldOf).Nodup := by
  have hnameable := h.nodes e he
  have hproperties : e.2.properties = elements.filterMap Element.property := by
    rw [Node.properties, hb]
  have hfield {p : String} (hp : p ∈ elements.filterMap Element.property) :
      snakeIdent? p = some ((namesOf c m).fieldOf p) := by
    have hpe : p ∈ e.2.properties := hproperties ▸ hp
    obtain ⟨field, hfield⟩ := hnameable.fields p hpe
    rw [Names.fieldOf, get?_fields (List.mem_flatMap.2 ⟨e, he, hpe⟩) hfield, hfield,
      Option.getD_some]
  refine List.Nodup.map_on (fun p hp q hq hpq => ?_)
    (hv.distinct (Model.node?_eq_some_iff.2 he) hb)
  exact hnameable.fieldsApart p (hproperties ▸ hp) q (hproperties ▸ hq) _ (hfield hp)
    (hpq ▸ hfield hq)

end Valid

end Names

/-- **Resolved names are aligned.** -/
theorem isAligned_of_resolveNames (hm : m.faults = []) (hnames : resolveNames c m = .ok names)
    (docs : Bool) : names.IsAligned m docs := by
  have hv := Model.faults_eq_nil_iff.1 hm
  obtain ⟨rfl, h⟩ := resolveNames_eq_ok_iff.1 hnames
  refine ⟨fun name hname => ?_, fun p hp => Names.exists_field h hp,
    fun other hother => SchemaPlan.build_congr hother docs, ?_,
    fun e he => ⟨nodeFunction_eq e, fun f hf => Names.function_inj h he hf⟩, ?_,
    ⟨SchemaPlan.mem_items_of_mem_sums List.mem_concat_self, ?_, Names.nodup_valueArms h,
      Names.forall₂_valueArms⟩,
    fun e he members hb hmapped => ?_, fun e he elements hb hmapped => ?_⟩
  · obtain ⟨n, hn⟩ := hv.exists_node hname
    exact Names.exists_entry h hn
  · rintro p rfl hp other hother
    exact StringifierPlan.stringifier_congr (hp ▸ hother)
  · rintro p rfl hp
    exact hp ▸ ⟨fun e he => p.writer_mem_items he, p.dispatcher_mem_items⟩
  · rw [SchemaPlan.valueVariants_build, valueArms, List.map_map, List.map_map]
    rfl
  · obtain ⟨d, hd, hnode, htype, hvariants⟩ := SchemaPlan.exists_declaredUnion he hmapped docs hb
    refine ⟨d, hd, members.map (armOf (namesOf c m)), hnode,
      SchemaPlan.mem_items_of_mem_sums (SchemaPlan.mem_sums_of_union hd), htype.symm, ?_, ?_,
      Names.nodup_memberArms h hv he hb⟩
    · simp only [writerOf, taskOf, hmapped, hb, Bool.false_eq_true, if_false]
    · rw [hvariants, List.map_map, List.map_map]
      rfl
  · obtain ⟨d, hd, hnode, htype, hfields⟩ :=
      SchemaPlan.exists_declaredDeduction he hmapped docs hb
    refine ⟨d, hd, elements.filterMap (partOf? m (namesOf c m)), hnode,
      SchemaPlan.mem_items_of_deduction hd, htype.symm, ?_, ?_, ?_⟩
    · simp only [writerOf, taskOf, hmapped, hb, Bool.false_eq_true, if_false]
    · rw [hfields, SchemaPlan.map_field_filterMap, filterMap_field?]
    · rw [hfields, SchemaPlan.map_field_filterMap]
      exact Names.nodup_fields h hv he hb

/-- The names for pairs are aligned, and two tokens and a deduction are told apart. -/
theorem isAligned_pairs : Model.pairs.faults = [] ∧ ∃ names,
    resolveNames {} .pairs = .ok names ∧ names.IsAligned .pairs true ∧
      valueArms .pairs names = [⟨"Word", "stringify_word"⟩, ⟨"Comma", "stringify_comma"⟩,
        ⟨"Pair", "stringify_pair"⟩] := by
  have hvalid := Model.isAccepted_pairs.valid
  have hplain : Model.pairs.hasPlainNames {} = true := by decide +kernel
  have hnames : resolveNames {} .pairs = .ok (namesOf {} .pairs) :=
    resolveNames_eq_ok_iff.2 ⟨rfl, Model.isNameable_of_hasPlainNames hplain⟩
  refine ⟨hvalid, _, hnames, isAligned_of_resolveNames hvalid hnames true, ?_⟩
  rw [namesOf_eq_plain hplain]
  decide +kernel

end GrammarKit
