import GrammarKit.Compiler
import GrammarKit.Proofs.Naming.Affixes
import GrammarKit.Proofs.Schema.Alignment

/-!
# When generators break down

Names that have passed all checks are written as single tokens, which most of them are. Only the
suffixes of types and the prefix of functions can bring in what is no part of a word, so that a
name is no token as it stands. Nothing else breaks a generator, but for an indentation that is
too long to have a text.

* `SchemaPlan.mem_identifiers`, `StringifierPlan.mem_identifiers`: the names that have to be tokens.
* `identToken?_variantOf`, `identToken?_fieldOf`, `identToken?_moduleOf`: those that always are.
* `isBroken_generateSchema_iff`, `isBroken_generateStringifier_iff`: when a generator breaks down.
* **`isBroken_compileModel_iff`**: when the compilation of a model does.
* `isBroken_compileModel_eq_false`: configurations with which it never does.
-/

namespace GrammarKit

open Code

variable {m : Model} {c : Naming}

/-! ## Names that have to be tokens -/

namespace SchemaPlan

variable {names : Names} {docs separate : Bool} {e : NamedNode}

theorem exists_of_mem_declared {α : Type} {decl? : NamedNode → Option α} {mapped : α → Bool} {d : α}
    (hd : d ∈ (m.nodes.entries.filterMap decl?).filter (!mapped ·)) :
    ∃ e ∈ m.nodes.entries, decl? e = some d ∧ mapped d = false := by
  obtain ⟨hmem, hmapped⟩ := List.mem_filter.1 hd
  obtain ⟨e, he, hdecl⟩ := List.mem_filterMap.1 hmem
  exact ⟨e, he, hdecl, by simpa using hmapped⟩

theorem of_tokenDecl? {d : TokenDecl} (h : tokenDecl? names docs e = some d) :
    d.type = names.typeOf e.1 ∧ d.variant = names.variantOf e.1 ∧
      d.mapped = names.isMapped e.1 := by
  unfold tokenDecl? at h
  split at h
  · cases h
    exact ⟨rfl, rfl, rfl⟩
  · cases h

theorem of_unionDecl? {d : UnionDecl} (h : unionDecl? m names docs e = some d) :
    ∃ members, e.2.body = .union members ∧ d.type = names.typeOf e.1 ∧
      d.variants = members.map (variantDecl m names) ∧ d.mapped = names.isMapped e.1 := by
  unfold unionDecl? at h
  split at h
  · rename_i members hb
    cases h
    exact ⟨members, hb, rfl, rfl, rfl⟩
  · cases h

theorem of_deductionDecl? {d : DeductionDecl} (h : deductionDecl? names docs e = some d) :
    ∃ elements, e.2.body = .deduction elements ∧ d.type = names.typeOf e.1 ∧
      d.variant = names.variantOf e.1 ∧ d.module = names.moduleOf e.1 ∧
      d.fields = elements.filterMap (fieldDecl? names) ∧ d.mapped = names.isMapped e.1 := by
  unfold deductionDecl? at h
  split at h
  · rename_i elements hb
    cases h
    exact ⟨elements, hb, rfl, rfl, rfl, rfl, rfl⟩
  · cases h

/-- **The names of generated types that have to be tokens** are those of the types themselves, of
variants, of fields and of modules. -/
theorem mem_identifiers {s : String} (hs : s ∈ (build m names docs).identifiers separate) :
    (∃ e ∈ m.nodes.entries, names.isMapped e.1 = false ∧ s = names.typeOf e.1) ∨
      (∃ x ∈ m.mentioned, s = names.variantOf x) ∨
      (∃ p ∈ m.properties, s = names.fieldOf p) ∨
      ∃ e ∈ m.nodes.entries, s = names.moduleOf e.1 := by
  simp only [identifiers, List.mem_append, List.mem_map, List.mem_flatMap, List.mem_cons] at hs
  rcases hs with (((⟨d, hd, rfl⟩ | ⟨d, hd, rfl⟩) | ⟨d, hd, hs⟩) | ⟨d, hd, rfl⟩) | ⟨d, hd, hs⟩
  -- the type and the variant of a token
  · obtain ⟨e, he, hdecl, hdeclared⟩ := exists_of_mem_declared hd
    obtain ⟨htype, -, hmapped⟩ := of_tokenDecl? hdecl
    exact .inl ⟨e, he, hmapped.symm.trans hdeclared, htype⟩
  · obtain ⟨e, he, hdecl⟩ := List.mem_filterMap.1 hd
    exact .inr (.inl ⟨e.1, Model.name_mentioned he, (of_tokenDecl? hdecl).2.1⟩)
  -- the type and the variants of a union
  · obtain ⟨e, he, hdecl, hdeclared⟩ := exists_of_mem_declared hd
    obtain ⟨members, hb, htype, hvariants, hmapped⟩ := of_unionDecl? hdecl
    rcases hs with rfl | ⟨v, hv, rfl⟩
    · exact .inl ⟨e, he, hmapped.symm.trans hdeclared, htype⟩
    · rw [hvariants] at hv
      obtain ⟨x, hx, rfl⟩ := List.mem_map.1 hv
      exact .inr (.inl ⟨x, Model.member_mentioned he hb hx, rfl⟩)
  -- the variant, the type, the fields and the module of a deduction
  · obtain ⟨e, he, hdecl⟩ := List.mem_filterMap.1 hd
    obtain ⟨-, -, -, hvariant, -⟩ := of_deductionDecl? hdecl
    exact .inr (.inl ⟨e.1, Model.name_mentioned he, hvariant⟩)
  · obtain ⟨e, he, hdecl, hdeclared⟩ := exists_of_mem_declared hd
    obtain ⟨elements, hb, htype, -, hmodule, hfields, hmapped⟩ := of_deductionDecl? hdecl
    rcases hs with (rfl | ⟨f, hf, rfl⟩) | hs
    · exact .inl ⟨e, he, hmapped.symm.trans hdeclared, htype⟩
    · rw [hfields] at hf
      obtain ⟨x, hx, hfield⟩ := List.mem_filterMap.1 hf
      obtain ⟨p, hp, rfl⟩ := Option.map_eq_some_iff.1 hfield
      exact .inr (.inr (.inl ⟨p, Model.mem_properties he hb hx hp, rfl⟩))
    · split at hs
      · exact .inr (.inr (.inr ⟨e, he, (List.mem_singleton.1 hs).trans hmodule⟩))
      · cases hs

end SchemaPlan

/-- The name of a type that is declared has to be an identifier as it stands. -/
theorem typeOf_mem_identifiers {names : Names} {docs : Bool} {e : NamedNode}
    (he : e ∈ m.nodes.entries) (hmapped : names.isMapped e.1 = false) (separate : Bool) :
    names.typeOf e.1 ∈ (SchemaPlan.build m names docs).identifiers separate := by
  simp only [SchemaPlan.identifiers, List.mem_append, List.mem_flatMap, List.mem_cons]
  cases hb : e.2.body with
  | token pattern =>
    obtain ⟨d, hd, htype⟩ := SchemaPlan.exists_declaredToken he hmapped docs hb
    exact .inl (.inl (.inl (.inl (List.mem_map.2 ⟨d, hd, htype⟩))))
  | union members =>
    obtain ⟨d, hd, -, htype, -⟩ := SchemaPlan.exists_declaredUnion he hmapped docs hb
    exact .inl (.inl (.inr ⟨d, hd, .inl htype.symm⟩))
  | deduction elements =>
    obtain ⟨d, hd, -, htype, -⟩ := SchemaPlan.exists_declaredDeduction he hmapped docs hb
    exact .inr ⟨d, hd, .inl (.inl htype.symm)⟩

/-- **The names of generated functions that have to be tokens** are those of the functions
themselves, of variants, of fields and of modules. -/
theorem StringifierPlan.mem_identifiers {p : StringifierPlan} {s : String}
    (hs : s ∈ p.identifiers) :
    (∃ e ∈ p.model.nodes.entries, s = p.names.functionOf e.1) ∨
      (∃ x ∈ p.model.mentioned, s = p.names.variantOf x) ∨
      (∃ q ∈ p.model.properties, s = p.names.fieldOf q) ∨
      ∃ e ∈ p.model.nodes.entries, s = p.names.moduleOf e.1 := by
  obtain ⟨e, he, hs⟩ := List.mem_flatMap.1 hs
  simp only [nodeIdentifiers, List.mem_append, List.mem_singleton] at hs
  rcases hs with ((rfl | hs) | hs) | hs
  · exact .inl ⟨e, he, rfl⟩
  · split at hs
    · cases hs
    · exact .inr (.inl ⟨e.1, Model.name_mentioned he, List.mem_singleton.1 hs⟩)
  · split at hs
    · exact .inr (.inr (.inr ⟨e, he, List.mem_singleton.1 hs⟩))
    · cases hs
  · split at hs
    · cases hs
    · split at hs
      · cases hs
      · rename_i elements hb
        obtain ⟨q, hq, rfl⟩ := List.mem_map.1 hs
        obtain ⟨x, hx, hxq⟩ := List.mem_filterMap.1 hq
        exact .inr (.inr (.inl ⟨q, Model.mem_properties he hb hx hxq, rfl⟩))
      · rename_i members hb
        obtain ⟨x, hx, rfl⟩ := List.mem_map.1 hs
        exact .inr (.inl ⟨x, Model.member_mentioned he hb hx, rfl⟩)

/-! ## Names that are tokens -/

section Nameable

variable (h : m.IsNameable c) (hv : m.IsValid)

include h hv

theorem identToken?_variantOf {x : String} (hx : x ∈ m.mentioned) :
    (identToken? ((namesOf c m).variantOf x)).isSome = true := by
  obtain ⟨n, hn⟩ := hv.exists_node hx
  rw [variantOf_namesOf hn]
  exact (h.nameable hn).identToken?_variant
    (hv.names x (Model.has_iff.1 (Model.has_iff_node?.2 ⟨n, hn⟩)))

theorem identToken?_fieldOf {p : String} (hp : p ∈ m.properties) :
    (identToken? ((namesOf c m).fieldOf p)).isSome = true := by
  obtain ⟨e, he, hpe⟩ := List.mem_flatMap.1 hp
  obtain ⟨field, hfield⟩ := (h.nodes e he).fields p hpe
  rw [Names.fieldOf, get?_fields hp hfield, Option.getD_some]
  refine identToken?_of_snakeIdent? ?_ hfield
  unfold Node.properties at hpe
  split at hpe
  · rename_i elements hb
    exact (hv.properties (Model.node?_eq_some_iff.2 he) hb p hpe).2
  · cases hpe

variable {e : NamedNode} (he : e ∈ m.nodes.entries)

include he

theorem identToken?_moduleOf : (identToken? ((namesOf c m).moduleOf e.1)).isSome = true := by
  have hn : m.node? e.1 = some e.2 := Model.node?_eq_some_iff.2 he
  have hmodule := (h.nodes e he).identToken?_module (hv.names e.1 (List.mem_map_of_mem he))
  simpa [Names.moduleOf, Names.lookup, get?_namesOf, hn] using hmodule

theorem identToken?_functionOf_iff :
    (identToken? ((namesOf c m).functionOf e.1)).isSome = true ↔
      isWordFront c.functionPrefix = true := by
  rw [functionOf_namesOf (Model.node?_eq_some_iff.2 he)]
  exact (h.nodes e he).identToken?_function_iff (hv.names e.1 (List.mem_map_of_mem he))

theorem identToken?_typeOf_iff (hmapped : (namesOf c m).isMapped e.1 = false) :
    (identToken? ((namesOf c m).typeOf e.1)).isSome = true ↔
      isWordBack (c.suffix e.2.kind) = true := by
  have hn : m.node? e.1 = some e.2 := Model.node?_eq_some_iff.2 he
  rw [typeOf_namesOf hn]
  exact (h.nodes e he).identToken?_type_iff (hv.names e.1 (List.mem_map_of_mem he))
    ((isMapped_namesOf_eq_false_iff hn).1 hmapped)

end Nameable

/-! ## Generators -/

/-- Whether all names are tokens, where this is checked before anything is generated. -/
theorem isBroken_ite_iff {α : Type} {names : List String} {output : α} {warnings : List String} :
    (if names.all fun s => (identToken? s).isSome then Generation.done output warnings
      else .broken).isBroken = true ↔ ∃ s ∈ names, (identToken? s).isSome = false := by
  split
  · rename_i hall
    rw [List.all_eq_true] at hall
    simp only [Generation.isBroken, Bool.false_eq_true, false_iff, not_exists, not_and]
    intro s hs
    rw [hall s hs]
    exact Bool.noConfusion
  · rename_i hall
    simpa [Generation.isBroken] using hall

/-- **The generator of types breaks down** exactly if all names pass the checks, and a suffix that
is in use leaves no words. -/
theorem isBroken_generateSchema_iff {config : SchemaConfig} :
    (generateSchema m c config).isBroken = true ↔ m.faults = [] ∧ m.IsNameable c ∧
      ∃ e ∈ m.nodes.entries, mappedType? c e = none ∧ isWordBack (c.suffix e.2.kind) = false := by
  unfold generateSchema
  split
  · rename_i errors hplan
    have hnot : ¬ (m.faults = [] ∧ m.IsNameable c) := fun ⟨hfaults, h⟩ => by
      rw [planSchema_eq_ok_iff.2 ⟨hfaults, h, rfl⟩] at hplan
      cases hplan
    simp only [Generation.isBroken, Bool.false_eq_true, false_iff]
    exact fun h => hnot ⟨h.1, h.2.1⟩
  · rename_i p hplan
    obtain ⟨hfaults, h, rfl⟩ := planSchema_eq_ok_iff.1 hplan
    have hv := Model.faults_eq_nil_iff.1 hfaults
    rw [isBroken_ite_iff]
    simp only [hfaults, h, true_and]
    constructor
    · rintro ⟨s, hs, hnone⟩
      rcases SchemaPlan.mem_identifiers hs with ⟨e, he, hmapped, rfl⟩ | ⟨x, hx, rfl⟩ |
        ⟨p, hp, rfl⟩ | ⟨e, he, rfl⟩
      · have hn : m.node? e.1 = some e.2 := Model.node?_eq_some_iff.2 he
        refine ⟨e, he, (isMapped_namesOf_eq_false_iff hn).1 hmapped, ?_⟩
        rwa [Bool.eq_false_iff, Ne, ← identToken?_typeOf_iff h hv he hmapped, ← Ne,
          ← Bool.eq_false_iff]
      · rw [identToken?_variantOf h hv hx] at hnone
        cases hnone
      · rw [identToken?_fieldOf h hv hp] at hnone
        cases hnone
      · rw [identToken?_moduleOf h hv he] at hnone
        cases hnone
    · rintro ⟨e, he, hmapped, hback⟩
      have hn : m.node? e.1 = some e.2 := Model.node?_eq_some_iff.2 he
      have hmapped := (isMapped_namesOf_eq_false_iff hn).2 hmapped
      refine ⟨_, typeOf_mem_identifiers he hmapped config.separateFiles, ?_⟩
      rwa [Bool.eq_false_iff, Ne, identToken?_typeOf_iff h hv he hmapped, ← Ne,
        ← Bool.eq_false_iff]

/-- What is planned is written, if the generator does not break down. -/
theorem generateSchema_of_planSchema {sc : SchemaConfig} {p : SchemaPlan}
    (hplan : planSchema m c sc = .ok p) (h : (generateSchema m c sc).isBroken = false) :
    generateSchema m c sc = .done
      (if sc.separateFiles then p.separateFiles m sc.outputDir else p.singleFile m sc.outputDir)
      (unknownMappings c m ++ p.warnings) := by
  unfold generateSchema at h ⊢
  simp only [hplan] at h ⊢
  split
  · rfl
  · rename_i hidentifiers
    rw [if_neg hidentifiers] at h
    cases h

/-- **The generator of functions breaks down** exactly if all names pass the checks, and the
indentation has no text or the prefix of functions leaves no words. -/
theorem isBroken_generateStringifier_iff {config : StringifierConfig} :
    (generateStringifier m c config).isBroken = true ↔ m.faults = [] ∧ m.IsNameable c ∧
      (schemaPath? config.schemaPath).isSome = true ∧
      (config.indentStyle.unit? = none ∨ isWordFront c.functionPrefix = false) := by
  unfold generateStringifier
  by_cases hnames : m.faults = [] ∧ m.IsNameable c
  · obtain ⟨hfaults, h⟩ := hnames
    have hv := Model.faults_eq_nil_iff.1 hfaults
    rw [if_neg (not_not_intro hfaults), resolveNames_eq_ok_iff.2 ⟨rfl, h⟩]
    simp only [hfaults, h, true_and]
    cases schemaPath? config.schemaPath with
    | none => simp [Generation.isBroken]
    | some path =>
      cases config.indentStyle.unit? with
      | none => simp [Generation.isBroken]
      | some unit =>
        simp only [isBroken_ite_iff, Option.isSome_some, true_and, reduceCtorEq, false_or]
        constructor
        · rintro ⟨s, hs, hnone⟩
          rcases StringifierPlan.mem_identifiers hs with ⟨e, he, rfl⟩ | ⟨x, hx, rfl⟩ |
            ⟨p, hp, rfl⟩ | ⟨e, he, rfl⟩
          · rwa [Bool.eq_false_iff, Ne, ← identToken?_functionOf_iff h hv he, ← Ne,
              ← Bool.eq_false_iff]
          · rw [identToken?_variantOf h hv hx] at hnone
            cases hnone
          · rw [identToken?_fieldOf h hv hp] at hnone
            cases hnone
          · rw [identToken?_moduleOf h hv he] at hnone
            cases hnone
        · intro hfront
          obtain ⟨n, hn⟩ := Model.has_iff_node?.1 hv.start
          have he : (m.start, n) ∈ m.nodes.entries := Model.node?_eq_some_iff.1 hn
          refine ⟨(namesOf c m).functionOf m.start, ?_, ?_⟩
          · refine List.mem_flatMap.2 ⟨_, he, ?_⟩
            simp [StringifierPlan.nodeIdentifiers]
          · rwa [Bool.eq_false_iff, Ne, identToken?_functionOf_iff h hv he, ← Ne,
              ← Bool.eq_false_iff]
  · have hnot : ∀ names, m.faults = [] → resolveNames c m ≠ .ok names := fun names hfaults hok =>
      hnames ⟨hfaults, (resolveNames_eq_ok_iff.1 hok).2⟩
    have hright : ¬ (m.faults = [] ∧ m.IsNameable c ∧
        (schemaPath? config.schemaPath).isSome = true ∧
        (config.indentStyle.unit? = none ∨ isWordFront c.functionPrefix = false)) :=
      fun h => hnames ⟨h.1, h.2.1⟩
    rw [iff_false_right hright]
    split
    · exact Bool.noConfusion
    · rename_i hfaults
      split
      · exact Bool.noConfusion
      · rename_i names hok
        exact absurd hok (hnot names (not_not.1 hfaults))

theorem isBroken_withWarnings {α : Type} (more : List String) (g : Generation α) :
    (g.withWarnings more).isBroken = g.isBroken := by
  cases g <;> rfl

/-- The generator of the grammar never breaks down. -/
theorem isBroken_generateGrammar (m : Model) (c : GrammarConfig) :
    (generateGrammar m c).isBroken = false := by
  unfold generateGrammar
  split
  · rfl
  · split <;> rfl

/-- **The compilation of a model breaks down** exactly if all names pass the checks, and a suffix
or the prefix leaves no words, or the indentation has no text. -/
theorem isBroken_compileModel_iff {c : Config} :
    (compileModel m c).isBroken = true ↔ m.faults = [] ∧ m.IsNameable c.naming ∧
      ((∃ e ∈ m.nodes.entries, mappedType? c.naming e = none ∧
          isWordBack (c.naming.suffix e.2.kind) = false) ∨
        (schemaPath? c.stringifier.schemaPath).isSome = true ∧
          (c.stringifier.indentStyle.unit? = none ∨
            isWordFront c.naming.functionPrefix = false)) := by
  unfold compileModel
  split
  · rename_i hfaults
    simp [Compilation.refused, Compilation.isBroken, Generation.isBroken, hfaults]
  · simp only [Compilation.isBroken, isBroken_withWarnings, isBroken_generateGrammar,
      Bool.or_false, Bool.or_eq_true, isBroken_generateSchema_iff, isBroken_generateStringifier_iff]
    rw [← and_or_left, ← and_or_left]

/-- Another prefix leaves all names but those of functions as they are. -/
theorem Model.IsNameable.functionPrefix (h : m.IsNameable c) {more : String}
    (hmore : ∀ e ∈ m.nodes.entries, Code.isIdentifier (more ++ snakeCase e.1) = true ∧
      more ++ snakeCase e.1 ∉ reservedFunctionNames) :
    m.IsNameable { c with functionPrefix := more } := by
  refine ⟨fun e he => ?_, h.apart.imp fun {a b} hab => ?_⟩
  · obtain ⟨hpath, htype, -, hvariant, hmodule, hmembers, hfields, hapart⟩ := h.nodes e he
    exact ⟨hpath, htype, hmore e he, hvariant, hmodule, hmembers, hfields, hapart⟩
  · refine ⟨hab.type, fun hfunction => hab.function ?_, hab.variant, hab.module⟩
    unfold functionName at hfunction ⊢
    rw [String.append_right_inj] at hfunction
    rw [hfunction]

/-- Functions with a blank in front of their names. -/
def Config.blankPrefix : Config where
  naming := { functionPrefix := " write_" }
  stringifier := { schemaPath := "" }

/-- The blank passes all checks on the names for pairs, and then breaks the compilation. -/
theorem isBroken_compileModel_pairs : (compileModel .pairs .blankPrefix).isBroken = true := by
  have hplain : ∀ e ∈ Model.pairs.nodes.entries, isIdentifier e.1 = true ∧
      (isIdentifier ("write_" ++ plainSnakeCase e.1) = true ∧
        isPlainWord ("write_" ++ plainSnakeCase e.1) = true) ∧
      " write_" ++ plainSnakeCase e.1 ∉ reservedFunctionNames := by decide +kernel
  have hnames : Model.pairs.IsNameable { functionPrefix := " write_" } := by
    have h : Model.pairs.IsNameable {} := Model.isNameable_of_hasPlainNames (by decide +kernel)
    refine h.functionPrefix fun e he => ?_
    obtain ⟨hname, hfunction, hreserved⟩ := hplain e he
    rw [snakeCase_ascii (isAscii_of_isIdentifier hname)]
    refine ⟨?_, hreserved⟩
    rw [show " write_" = " " ++ "write_" from rfl, String.append_assoc]
    exact isIdentifier_blank hfunction.1 hfunction.2
  have hblank : startsIdent ' ' = false := by
    rw [startsIdent, (notName_of_endsWord (.inl rfl)).1]
    rfl
  have hchars : " write_".toList = ' ' :: ['w', 'r', 'i', 't', 'e', '_'] := by decide
  have hfront : isWordFront " write_" = false := isWordFront_eq_false hchars hblank
  exact isBroken_compileModel_iff.2
    ⟨Model.isAccepted_pairs.valid, hnames, .inr ⟨rfl, .inr hfront⟩⟩

/-- **Affixes of words and an indentation with a text** never break a compilation. -/
theorem isBroken_compileModel_eq_false {c : Config}
    (htoken : isWordBack c.naming.tokenSuffix = true)
    (hnode : isWordBack c.naming.nodeSuffix = true)
    (hfunction : isWordFront c.naming.functionPrefix = true)
    (hindent : c.stringifier.indentStyle.unit?.isSome = true) (m : Model) :
    (compileModel m c).isBroken = false := by
  rw [Bool.eq_false_iff, Ne, isBroken_compileModel_iff]
  rintro ⟨-, -, ⟨e, -, -, hback⟩ | ⟨-, hunit | hfront⟩⟩
  · exact Bool.false_ne_true (hback.symm.trans (Naming.isWordBack_suffix htoken hnode e.2.kind))
  · rw [hunit] at hindent
    cases hindent
  · exact Bool.false_ne_true (hfront.symm.trans hfunction)

end GrammarKit
