import GrammarKit.Proofs.Compiler.Breakage

/-!
# Conversions that do not clash

Code with two conversions between the same types, or with one of a type into itself, does not
compile. The names of generated types are tokens of their own, so only two things can go wrong: a
union that is one of its members, and types from outside that are written in two ways.

* `Enumeration`, `Model.enumerations`: the types that values are converted into.
* `types_conversions_build`: the types of all conversions.
* `SchemaPlan.IsCoherent`: no two conversions clash.
* `typeTokens_inj`, `exists_union_of_typeTokens_eq`: types that are declared.
* **`isCoherent_iff_of_generateSchema`**: when the generated conversions do not clash.
* `not_nodup_conversions_eitherLetter`, `not_isCoherent_layers`: how they do.
-/

namespace GrammarKit

open Code

/-- **A type that values are converted into**, and the nodes whose values these are. -/
structure Enumeration where
  type : String
  nodes : List String

/-- The enumeration for a union that is declared. -/
def enumeration? (names : Names) (e : NamedNode) : Option Enumeration :=
  match e.2.body with
  | .union members => if names.isMapped e.1 then none else some ⟨names.typeOf e.1, members⟩
  | _ => none

/-- **All enumerations of a model**: those of tokens, of the members of each union, and of all
values. -/
def Model.enumerations (m : Model) (names : Names) : List Enumeration :=
  ⟨"AnyToken", m.namesOf .token⟩ :: m.nodes.entries.filterMap (enumeration? names) ++
    [⟨"AnyNode", m.namesOf .token ++ m.namesOf .deduction⟩]

/-- The types between which a conversion goes. -/
def Conversion.types (c : Conversion) : List Token × List Token := (c.source, c.target)

/-- The types of the conversions into an enumeration. -/
def Enumeration.types (names : Names) (E : Enumeration) : List (List Token × List Token) :=
  E.nodes.map fun a => (typeTokens (names.typeOf a), nameTokens E.type)

/-- **No two conversions go between the same types**, and none from a type to itself. The
conversions are those that the items print: see `SchemaPlan.items_perm` and
`SchemaPlan.conversions_eq`. -/
def SchemaPlan.IsCoherent (p : SchemaPlan) : Prop :=
  (p.conversions.map Conversion.types).Nodup ∧ ∀ c ∈ p.conversions, c.source ≠ c.target

variable {c : Naming} {m : Model} {names : Names} {docs : Bool}

theorem nameTokens_inj {s t : String} (h : nameTokens s = nameTokens t) : s = t := by
  simpa [nameTokens] using h

/-! ## The types of all conversions -/

theorem types_sumConversions (sum : String) (nodes : List String) :
    (sumConversions sum (nodes.map (SchemaPlan.sumVariant names))).map Conversion.types =
      Enumeration.types names ⟨sum, nodes⟩ := by
  unfold sumConversions Enumeration.types
  rw [List.map_map, List.map_map]
  rfl

theorem types_unionDecl {d : UnionDecl} {members : List String}
    (hd : d.variants = members.map (SchemaPlan.variantDecl m names)) :
    d.conversions.map Conversion.types = Enumeration.types names ⟨d.type, members⟩ := by
  unfold UnionDecl.conversions Enumeration.types
  rw [hd, List.map_map, List.map_map]
  rfl

theorem types_unionConversions :
    ((SchemaPlan.build m names docs).declaredUnions.flatMap UnionDecl.conversions).map
        Conversion.types =
      (m.nodes.entries.filterMap (enumeration? names)).flatMap (Enumeration.types names) := by
  unfold SchemaPlan.declaredUnions SchemaPlan.build
  simp only
  induction m.nodes.entries with
  | nil => rfl
  | cons e entries ih =>
    rw [List.filterMap_cons, List.filterMap_cons]
    cases hb : e.2.body with
    | token pattern => simpa [SchemaPlan.unionDecl?, enumeration?, hb] using ih
    | deduction elements => simpa [SchemaPlan.unionDecl?, enumeration?, hb] using ih
    | union members =>
      simp only [SchemaPlan.unionDecl?, enumeration?, hb]
      by_cases hmapped : names.isMapped e.1 = true
      · simpa [hmapped] using ih
      · rw [Bool.not_eq_true] at hmapped
        simp only [hmapped, Bool.not_false, List.filter_cons_of_pos, if_false, List.flatMap_cons,
          List.map_append, ih, Bool.false_eq_true]
        rw [types_unionDecl rfl]

/-- **The types of all conversions** are those of each enumeration. -/
theorem types_conversions_build :
    (SchemaPlan.build m names docs).conversions.map Conversion.types =
      (m.enumerations names).flatMap (Enumeration.types names) := by
  have htokens : ((if (SchemaPlan.build m names docs).tokens = [] then []
      else sumConversions "AnyToken" (SchemaPlan.build m names docs).tokenVariants).map
        Conversion.types) = Enumeration.types names ⟨"AnyToken", m.namesOf .token⟩ := by
    rw [← types_sumConversions, ← SchemaPlan.tokenVariants_build docs]
    split
    · rename_i hnil
      rw [SchemaPlan.tokenVariants, hnil]
      rfl
    · rfl
  unfold SchemaPlan.conversions Model.enumerations
  rw [List.map_append, List.map_append, htokens, types_unionConversions,
    SchemaPlan.valueVariants_build, types_sumConversions]
  simp only [List.cons_append, List.flatMap_cons, List.flatMap_append, List.flatMap_nil,
    List.append_nil, List.append_assoc]

/-- No conversion is from a type to itself if the types of an enumeration are not its own. -/
theorem source_ne_target_build_iff :
    (∀ k ∈ (SchemaPlan.build m names docs).conversions, k.source ≠ k.target) ↔
      ∀ E ∈ m.enumerations names, ∀ a ∈ E.nodes,
        typeTokens (names.typeOf a) ≠ nameTokens E.type := by
  have hmap : (∀ k ∈ (SchemaPlan.build m names docs).conversions, k.source ≠ k.target) ↔
      ∀ x ∈ (SchemaPlan.build m names docs).conversions.map Conversion.types, x.1 ≠ x.2 := by
    rw [List.forall_mem_map]
    rfl
  rw [hmap, types_conversions_build]
  simp only [List.mem_flatMap, Enumeration.types, List.mem_map]
  constructor
  · intro hall E hE a ha
    exact hall _ ⟨E, hE, a, ha, rfl⟩
  · rintro hall _ ⟨E, hE, a, ha, rfl⟩
    exact hall E hE a ha

/-! ## Enumerations with different names -/

theorem exists_union_of_enumeration? {e : NamedNode} {E : Enumeration}
    (h : enumeration? names e = some E) : ∃ members, e.2.body = .union members ∧
      names.isMapped e.1 = false ∧ E = ⟨names.typeOf e.1, members⟩ := by
  unfold enumeration? at h
  split at h
  · rename_i members hb
    split at h
    · cases h
    · rename_i hmapped
      exact ⟨members, hb, by simpa using hmapped, (Option.some.inj h).symm⟩
  · cases h

/-- An enumeration is one of all tokens, of the members of a union that is declared, or of all
values. -/
theorem mem_enumerations {E : Enumeration} (h : E ∈ m.enumerations names) :
    E = ⟨"AnyToken", m.namesOf .token⟩ ∨
      (∃ e ∈ m.nodes.entries, ∃ members, e.2.body = .union members ∧
        names.isMapped e.1 = false ∧ E = ⟨names.typeOf e.1, members⟩) ∨
      E = ⟨"AnyNode", m.namesOf .token ++ m.namesOf .deduction⟩ := by
  simp only [Model.enumerations, List.cons_append, List.mem_cons, List.mem_append,
    List.mem_filterMap, List.not_mem_nil, or_false] at h
  rcases h with h | ⟨e, he, hE⟩ | h
  · exact .inl h
  · exact .inr (.inl ⟨e, he, exists_union_of_enumeration? hE⟩)
  · exact .inr (.inr h)

/-- A union that is declared has an enumeration. -/
theorem mem_enumerations_of_union {e : NamedNode} (he : e ∈ m.nodes.entries) {members : List String}
    (hb : e.2.body = .union members) (hmapped : names.isMapped e.1 = false) :
    ⟨names.typeOf e.1, members⟩ ∈ m.enumerations names := by
  have hunion : enumeration? names e = some ⟨names.typeOf e.1, members⟩ := by
    simp [enumeration?, hb, hmapped]
  unfold Model.enumerations
  exact List.mem_append_left _ (List.mem_cons_of_mem _ (List.mem_filterMap.2 ⟨e, he, hunion⟩))

/-- The nodes of an enumeration are nodes of the model. -/
theorem exists_node_of_mem (hv : m.IsValid) {E : Enumeration} (hE : E ∈ m.enumerations names)
    {a : String} (ha : a ∈ E.nodes) : ∃ n, m.node? a = some n := by
  rcases mem_enumerations hE with rfl | ⟨e, he, members, hb, -, rfl⟩ | rfl
  · obtain ⟨n, hn, -⟩ := Model.node?_of_mem_namesOf ha
    exact ⟨n, hn⟩
  · exact hv.exists_node (Model.member_mentioned he hb ha)
  · obtain ⟨n, hn, -⟩ := Model.node?_of_mem_append ha
    exact ⟨n, hn⟩

section Nameable

variable (h : m.IsNameable c)

include h

/-- A type that is declared has no reserved name. -/
theorem typeOf_notMem_reserved {e : NamedNode} (he : e ∈ m.nodes.entries)
    (hmapped : (namesOf c m).isMapped e.1 = false) :
    (namesOf c m).typeOf e.1 ∉ reservedTypeNames := by
  have hn : m.node? e.1 = some e.2 := Model.node?_eq_some_iff.2 he
  rw [isMapped_namesOf_eq_false_iff hn] at hmapped
  rw [typeOf_namesOf hn]
  exact ((h.nodes e he).type hmapped).2

/-- The enumerations have different names. -/
theorem pairwise_enumerations :
    (m.enumerations (namesOf c m)).Pairwise fun E F => E.type ≠ F.type := by
  have hunions : (m.nodes.entries.filterMap (enumeration? (namesOf c m))).Pairwise
      fun E F => E.type ≠ F.type := by
    rw [List.pairwise_filterMap]
    refine h.apart.imp_of_mem fun {a b} ha hb hab E hE F hF => ?_
    obtain ⟨-, -, -, rfl⟩ := exists_union_of_enumeration? hE
    obtain ⟨-, -, -, rfl⟩ := exists_union_of_enumeration? hF
    simp only [typeOf_namesOf (Model.node?_eq_some_iff.2 ha),
      typeOf_namesOf (Model.node?_eq_some_iff.2 hb)]
    exact hab.type
  have hreserved : ∀ E ∈ m.nodes.entries.filterMap (enumeration? (namesOf c m)),
      E.type ∉ reservedTypeNames := by
    intro E hE
    obtain ⟨e, he, hE⟩ := List.mem_filterMap.1 hE
    obtain ⟨-, -, hmapped, rfl⟩ := exists_union_of_enumeration? hE
    exact typeOf_notMem_reserved h he hmapped
  have hne (s : String) (hs : s ∈ reservedTypeNames) :
      ∀ E ∈ m.nodes.entries.filterMap (enumeration? (namesOf c m)), E.type ≠ s := by
    rintro E hE rfl
    exact hreserved E hE hs
  unfold Model.enumerations
  rw [List.cons_append, List.pairwise_cons, List.pairwise_append]
  refine ⟨fun E hE => ?_, hunions, List.pairwise_singleton _ _, fun E hE F hF => ?_⟩
  · rcases List.mem_append.1 hE with hE | hE
    · exact (hne "AnyToken" (by decide) E hE).symm
    · rw [List.mem_singleton.1 hE]
      exact (by decide : "AnyToken" ≠ "AnyNode")
  · rw [List.mem_singleton.1 hF]
    exact hne "AnyNode" (by decide) E hE

/-- No node stands in an enumeration twice. -/
theorem nodup_enumeration {E : Enumeration} (hE : E ∈ m.enumerations (namesOf c m)) :
    E.nodes.Nodup := by
  rcases mem_enumerations hE with rfl | ⟨e, he, members, hb, -, rfl⟩ | rfl
  · exact m.nodup_namesOf _
  · exact ((h.nodes e he).members members hb).of_map _
  · exact m.nodup_namesOf_append (by decide)

/-- No two conversions have the same types if the types of an enumeration differ. -/
theorem nodup_types_build_iff :
    ((SchemaPlan.build m (namesOf c m) docs).conversions.map Conversion.types).Nodup ↔
      ∀ E ∈ m.enumerations (namesOf c m), ∀ a ∈ E.nodes, ∀ b ∈ E.nodes,
        typeTokens ((namesOf c m).typeOf a) = typeTokens ((namesOf c m).typeOf b) → a = b := by
  have hapart : (m.enumerations (namesOf c m)).Pairwise
      (Function.onFun List.Disjoint (Enumeration.types (namesOf c m))) := by
    refine (pairwise_enumerations h).imp fun {E F} hEF => ?_
    intro x hxE hxF
    obtain ⟨a, -, rfl⟩ := List.mem_map.1 hxE
    obtain ⟨b, -, hb⟩ := List.mem_map.1 hxF
    exact hEF (nameTokens_inj (Prod.mk.inj hb).2).symm
  rw [types_conversions_build, List.nodup_flatMap]
  simp only [hapart, and_true]
  refine forall₂_congr fun E hE => ?_
  rw [Enumeration.types, List.nodup_map_iff_inj_on (nodup_enumeration h hE)]
  simp only [Prod.mk.injEq, and_true]

/-! ## Types that are declared -/

/-- Two nodes have different types. -/
theorem typeOf_inj {a b : String} {n k : Node} (ha : m.node? a = some n) (hb : m.node? b = some k)
    (he : (namesOf c m).typeOf a = (namesOf c m).typeOf b) : a = b := by
  by_contra hne
  rw [typeOf_namesOf ha, typeOf_namesOf hb] at he
  exact (h.apart_of_ne (Model.node?_eq_some_iff.1 ha) (Model.node?_eq_some_iff.1 hb) hne).type he

/-- The name of a type that is declared starts with a letter or a digit. -/
theorem exists_chosenType_eq_cons (hv : m.IsValid) {e : NamedNode} (he : e ∈ m.nodes.entries)
    (hmapped : mappedType? c e = none) :
    ∃ d s, (chosenType c e).toList = d :: s ∧ isIdentifierPart d = true := by
  have hname : isIdentifier e.1 = true := hv.names e.1 (List.mem_map_of_mem he)
  obtain ⟨suffix, hsuffix⟩ : ∃ suffix, chosenType c e = pascalCase e.1 ++ suffix := by
    rw [chosenType, hmapped, Option.getD_none, typeName.eq_def]
    split
    · exact ⟨_, rfl⟩
    · exact ⟨_, rfl⟩
    · exact ⟨"", by simp⟩
  have hpascal : pascalCase e.1 ≠ "" := by
    by_cases hunion : e.2.kind = .union
    · have hident := ((h.nodes e he).type hmapped).1
      rw [chosenType, hmapped, Option.getD_none, typeName.eq_def, hunion] at hident
      exact ne_empty_of_isIdentifier hident
    · exact ne_empty_of_isIdentifier ((h.nodes e he).variant _ (if_pos (.inl hunion)))
  cases hs : (pascalCase e.1).toList with
  | nil => exact absurd (String.toList_eq_nil_iff.1 hs) hpascal
  | cons d s =>
    refine ⟨d, s ++ suffix.toList, by rw [hsuffix, String.toList_append, hs, List.cons_append], ?_⟩
    have hd := isAlphanum_of_mem_pascalCase hname d (by rw [hs]; exact List.mem_cons_self)
    simp [isIdentifierPart, hd]

/-- **A type that is declared is a token of its own.** -/
theorem typeTokens_typeOf (hv : m.IsValid) {e : NamedNode} (he : e ∈ m.nodes.entries)
    (hmapped : (namesOf c m).isMapped e.1 = false)
    (htoken : (identToken? ((namesOf c m).typeOf e.1)).isSome = true) :
    typeTokens ((namesOf c m).typeOf e.1) = nameTokens ((namesOf c m).typeOf e.1) := by
  have hn : m.node? e.1 = some e.2 := Model.node?_eq_some_iff.2 he
  rw [isMapped_namesOf_eq_false_iff hn] at hmapped
  rw [typeOf_namesOf hn] at htoken ⊢
  obtain ⟨d, s, hchars, hd⟩ := exists_chosenType_eq_cons h hv he hmapped
  exact typeTokens_of_isIdentifier hchars hd ((h.nodes e he).type hmapped).1 htoken

section Declared

variable (hv : m.IsValid)
  (htokens : ∀ e ∈ m.nodes.entries, (namesOf c m).isMapped e.1 = false →
    typeTokens ((namesOf c m).typeOf e.1) = nameTokens ((namesOf c m).typeOf e.1))

include hv htokens

/-- Two types that are declared are written differently. -/
theorem typeTokens_inj {E : Enumeration} (hE : E ∈ m.enumerations (namesOf c m)) {a b : String}
    (ha : a ∈ E.nodes) (hb : b ∈ E.nodes) (hma : (namesOf c m).isMapped a = false)
    (hmb : (namesOf c m).isMapped b = false)
    (he : typeTokens ((namesOf c m).typeOf a) = typeTokens ((namesOf c m).typeOf b)) : a = b := by
  obtain ⟨n, hn⟩ := exists_node_of_mem hv hE ha
  obtain ⟨k, hk⟩ := exists_node_of_mem hv hE hb
  rw [htokens _ (Model.node?_eq_some_iff.1 hn) hma,
    htokens _ (Model.node?_eq_some_iff.1 hk) hmb] at he
  exact typeOf_inj h hn hk (nameTokens_inj he)

/-- **A type that is declared is no enumeration of its own values**, unless it is a union that is
one of its members. -/
theorem exists_union_of_typeTokens_eq {E : Enumeration} (hE : E ∈ m.enumerations (namesOf c m))
    {a : String} (ha : a ∈ E.nodes) (hmapped : (namesOf c m).isMapped a = false)
    (he : typeTokens ((namesOf c m).typeOf a) = nameTokens E.type) :
    ∃ e ∈ m.nodes.entries, ∃ members, e.2.body = .union members ∧
      (namesOf c m).isMapped e.1 = false ∧ e.1 ∈ members := by
  obtain ⟨n, hn⟩ := exists_node_of_mem hv hE ha
  have hmem := Model.node?_eq_some_iff.1 hn
  rw [htokens _ hmem hmapped] at he
  have htype := nameTokens_inj he
  have hreserved := typeOf_notMem_reserved h hmem hmapped
  rcases mem_enumerations hE with rfl | ⟨e, hemem, members, hb, hunmapped, rfl⟩ | rfl
  · exact absurd (htype ▸ (by decide : "AnyToken" ∈ reservedTypeNames)) hreserved
  · have hname : a = e.1 := typeOf_inj h hn (Model.node?_eq_some_iff.2 hemem) htype
    exact ⟨e, hemem, members, hb, hunmapped, hname ▸ ha⟩
  · exact absurd (htype ▸ (by decide : "AnyNode" ∈ reservedTypeNames)) hreserved

end Declared

end Nameable

/-! ## Generated types -/

/-- Types are generated from a valid model under resolved names, with identifiers that stand as
they are. -/
theorem generateSchema_eq_done {sc : SchemaConfig} {files : Files} {warnings : List String}
    (hdone : generateSchema m c sc = .done files warnings) :
    m.IsValid ∧ m.IsNameable c ∧
      planSchema m c sc = .ok (.build m (namesOf c m) sc.includeDocumentation) ∧
      ∀ s ∈ (SchemaPlan.build m (namesOf c m) sc.includeDocumentation).identifiers
        sc.separateFiles, (identToken? s).isSome = true := by
  unfold generateSchema at hdone
  split at hdone
  · cases hdone
  · rename_i p hp
    obtain ⟨hvalid, hnameable, rfl⟩ := planSchema_eq_ok_iff.1 hp
    split at hdone
    · rename_i hall
      exact ⟨Model.faults_eq_nil_iff.1 hvalid, hnameable, hp, List.all_eq_true.1 hall⟩
    · cases hdone

/-- Types are generated from a valid model whose names pass the checks, if the suffixes in use leave
words. -/
theorem exists_generateSchema (sc : SchemaConfig) (hvalid : m.faults = []) (h : m.IsNameable c)
    (hsuffix : ∀ kind, isWordBack (c.suffix kind) = true) :
    ∃ files warnings, generateSchema m c sc = .done files warnings := by
  have hplan : planSchema m c sc = .ok (.build m (namesOf c m) sc.includeDocumentation) :=
    planSchema_eq_ok_iff.2 ⟨hvalid, h, rfl⟩
  have hunbroken : (generateSchema m c sc).isBroken = false := by
    rw [Bool.eq_false_iff, Ne, isBroken_generateSchema_iff]
    rintro ⟨-, -, e, -, -, hback⟩
    exact Bool.false_ne_true (hback.symm.trans (hsuffix e.2.kind))
  exact ⟨_, _, generateSchema_of_planSchema hplan hunbroken⟩

/-- **The conversions of generated types do not clash** exactly if no union is one of its members
and no type from outside is written like another type it meets. -/
theorem isCoherent_iff_of_generateSchema {sc : SchemaConfig} {files : Files}
    {warnings : List String} (hdone : generateSchema m c sc = .done files warnings) :
    ∃ names p, resolveNames c m = .ok names ∧ planSchema m c sc = .ok p ∧
      (p.IsCoherent ↔
        (∀ e ∈ m.nodes.entries, ∀ members, e.2.body = .union members →
          names.isMapped e.1 = false → e.1 ∉ members) ∧
        ∀ E ∈ m.enumerations names, ∀ a ∈ E.nodes, names.isMapped a = true →
          typeTokens (names.typeOf a) ≠ nameTokens E.type ∧
          ∀ b ∈ E.nodes, typeTokens (names.typeOf a) = typeTokens (names.typeOf b) → a = b) := by
  obtain ⟨hv, h, hplan, hident⟩ := generateSchema_eq_done hdone
  refine ⟨_, _, resolveNames_eq_ok_iff.2 ⟨rfl, h⟩, hplan, ?_⟩
  have htokens : ∀ e ∈ m.nodes.entries, (namesOf c m).isMapped e.1 = false →
      typeTokens ((namesOf c m).typeOf e.1) = nameTokens ((namesOf c m).typeOf e.1) :=
    fun e he hmapped => typeTokens_typeOf h hv he hmapped
      (hident _ (typeOf_mem_identifiers he hmapped sc.separateFiles))
  unfold SchemaPlan.IsCoherent
  rw [nodup_types_build_iff h, source_ne_target_build_iff]
  constructor
  · rintro ⟨hinj, hne⟩
    refine ⟨fun e he members hb hmapped hmem => ?_, fun E hE a ha _ =>
      ⟨hne E hE a ha, hinj E hE a ha⟩⟩
    exact hne _ (mem_enumerations_of_union he hb hmapped) e.1 hmem (htokens e he hmapped)
  · rintro ⟨hself, houtside⟩
    refine ⟨fun E hE a ha b hb hab => ?_, fun E hE a ha he => ?_⟩
    · by_cases hma : (namesOf c m).isMapped a = true
      · exact (houtside E hE a ha hma).2 b hb hab
      by_cases hmb : (namesOf c m).isMapped b = true
      · exact ((houtside E hE b hb hmb).2 a ha hab.symm).symm
      rw [Bool.not_eq_true] at hma hmb
      exact typeTokens_inj h hv htokens hE ha hb hma hmb hab
    · by_cases hma : (namesOf c m).isMapped a = true
      · exact (houtside E hE a ha hma).1 he
      rw [Bool.not_eq_true] at hma
      obtain ⟨e, hemem, members, hb, hmapped, hmem⟩ :=
        exists_union_of_typeTokens_eq h hv htokens hE ha hma he
      exact hself e hemem members hb hmapped hmem

/-- The conversions of pairs do not clash. -/
theorem isCoherent_pairs : ∃ files warnings names p,
    generateSchema .pairs {} {} = .done files warnings ∧ resolveNames {} .pairs = .ok names ∧
      planSchema .pairs {} {} = .ok p ∧ p.IsCoherent := by
  have hplain : Model.pairs.hasPlainNames {} = true := by decide +kernel
  obtain ⟨files, warnings, hdone⟩ := exists_generateSchema {} Model.isAccepted_pairs.valid
    (Model.isNameable_of_hasPlainNames hplain) Naming.isWordBack_suffix_default
  obtain ⟨names, p, hnames, hplan, hiff⟩ := isCoherent_iff_of_generateSchema hdone
  refine ⟨files, warnings, names, p, hdone, hnames, hplan, hiff.2 ?_⟩
  obtain ⟨rfl, -⟩ := resolveNames_eq_ok_iff.1 hnames
  rw [namesOf_eq_plain hplain]
  have hreferences : ∀ e ∈ Model.pairs.nodes.entries, e.1 ∉ e.2.references := by decide +kernel
  refine ⟨fun e he members hb _ => ?_, fun E _ a _ hmapped => ?_⟩
  · have hmember := hreferences e he
    rwa [Node.references, hb] at hmember
  · rw [isMapped_plainNamesOf] at hmapped
    cases hmapped

/-- A union of two letters. -/
def Model.eitherLetter : Model :=
  (((new "T" "V").insert "A" (.token (.literal "a"))).insert "B" (.token (.literal "b"))).insert "V"
    (.union ["A", "B"])

/-- One type from outside for both letters, written in two ways. -/
def Naming.twice : Naming where
  typeMapping := .ofList [("A", "crate::X"), ("B", "crate :: X")]

theorem mappedType?_twice (n : Node) :
    mappedType? .twice ("A", n) = some "crate::X" ∧
      mappedType? .twice ("B", n) = some "crate :: X" ∧ mappedType? .twice ("V", n) = none := by
  have htrim {path : String} (hfirst : path.toList.head?.all isIdentifierPart = true)
      (hlast : path.toList.getLast?.all isIdentifierPart = true) :
      String.ofList (Text.trim path.toList) = path := by
    rw [Text.trim_of_ends hfirst hlast, String.ofList_toList]
  refine ⟨?_, ?_, rfl⟩
  · exact congrArg some (htrim (by decide) (by decide))
  · exact congrArg some (htrim (by decide) (by decide))

theorem typePath?_twice :
    typePath? "crate::X" = some [.unit "crate", .unit "::", .unit "X"] ∧
      typePath? "crate :: X" = some [.unit "crate", .unit "::", .unit "X"] := by
  have hpaths := typePath?_crate (by decide : isIdentifier "X" = true) (by decide)
  rwa [show "crate::" ++ "X" = "crate::X" by decide,
    show "crate :: " ++ "X" = "crate :: X" by decide] at hpaths

theorem Model.isNameable_eitherLetter : eitherLetter.IsNameable .twice := by
  have hplain : eitherLetter.hasPlainNames {} = true := by decide +kernel
  have hentries : eitherLetter.nodes.entries = [("A", { body := .token (.literal "a") }),
      ("B", { body := .token (.literal "b") }), ("V", { body := .union ["A", "B"] })] := rfl
  obtain ⟨hclose, hwide⟩ := typePath?_twice
  have hpaths : ∀ e ∈ eitherLetter.nodes.entries, ∀ path, mappedType? .twice e = some path →
      e.2.kind ≠ .union ∧ (typePath? path).isSome = true := by
    have hkind (p : Pattern) : ({ body := .token p } : Node).kind ≠ .union := NodeKind.noConfusion
    rw [hentries]
    simp [mappedType?_twice, hclose, hwide, hkind]
  have hapart : eitherLetter.nodes.entries.Pairwise fun a b =>
      chosenType .twice a ≠ chosenType .twice b := by
    have hunion : typeName .twice ({ body := .union ["A", "B"] } : Node).kind "V" = "V" :=
      pascalCase_ascii (by decide)
    rw [hentries]
    simp [chosenType, mappedType?_twice, hunion]
  exact (Model.isNameable_of_hasPlainNames hplain).withMapping rfl hpaths hapart

/-- The same conversion is generated for both letters. -/
theorem not_nodup_conversions_eitherLetter : ∃ files warnings p,
    generateSchema .eitherLetter .twice { separateFiles := false } = .done files warnings ∧
      planSchema .eitherLetter .twice { separateFiles := false } = .ok p ∧
      ¬ (p.conversions.map Conversion.types).Nodup := by
  obtain ⟨files, warnings, hdone⟩ := exists_generateSchema { separateFiles := false }
    (by decide +kernel) Model.isNameable_eitherLetter Naming.isWordBack_suffix_default
  obtain ⟨-, -, hplan, -⟩ := generateSchema_eq_done hdone
  refine ⟨files, warnings, _, hdone, hplan, fun hnodup => ?_⟩
  have htypes := (nodup_types_build_iff Model.isNameable_eitherLetter).1 hnodup _ List.mem_cons_self
    "A" (by decide +kernel) "B" (by decide +kernel)
  rw [typeOf_namesOf (rfl : Model.eitherLetter.node? "A" = some _),
    typeOf_namesOf (rfl : Model.eitherLetter.node? "B" = some _), chosenType, chosenType,
    (mappedType?_twice _).1, (mappedType?_twice _).2.1] at htypes
  simp only [Option.getD_some, typeTokens, typePath?_twice] at htypes
  exact absurd (htypes trivial) (by decide)

/-- Letters in layers: a union that is one of its members. -/
def Model.layers : Model :=
  ((new "Layers" "Layer").insert "Letter" (.token (.literal "a"))).insert "Layer"
    (.union ["Letter", "Layer"])

/-- A layer is converted into itself. -/
theorem not_isCoherent_layers : ∃ files warnings p,
    generateSchema .layers {} {} = .done files warnings ∧ planSchema .layers {} {} = .ok p ∧
      ¬ p.IsCoherent := by
  have hplain : Model.layers.hasPlainNames {} = true := by decide +kernel
  obtain ⟨files, warnings, hdone⟩ := exists_generateSchema {} (by decide +kernel)
    (Model.isNameable_of_hasPlainNames hplain) Naming.isWordBack_suffix_default
  obtain ⟨-, -, hplan, -⟩ := generateSchema_eq_done hdone
  refine ⟨files, warnings, _, hdone, hplan, fun hcoherent => ?_⟩
  rw [namesOf_eq_plain hplain] at hcoherent
  have htype : typeTokens "Layer" = nameTokens "Layer" :=
    typeTokens_of_isPlainWord (by decide) (by decide)
  have hname : (plainNamesOf {} .layers).typeOf "Layer" = "Layer" := by decide +kernel
  have he : ("Layer", ({ body := .union ["Letter", "Layer"] } : Node)) ∈
      Model.layers.nodes.entries := by decide +kernel
  have hmapped : (plainNamesOf {} .layers).isMapped "Layer" = false := isMapped_plainNamesOf _ _
  have hne := source_ne_target_build_iff.1 hcoherent.2 _
    (mem_enumerations_of_union he rfl hmapped) "Layer" (by simp)
  rw [hname] at hne
  exact hne htype

end GrammarKit
