import GrammarKit.Proofs.Schema.Layout
import GrammarKit.Proofs.Stringifier.Writers

/-!
# Functions in several files

Generated functions stand in one file, or in a file per node with the shared types and the index
beside them. Both hold the same declarations, and no file takes the place of another one.

* `StringifierPlan.layout`: the items of the files.
* `StringifierPlan.splits_layout`: the files hold the declarations of the single one.
* `generateStringifier_layouts`: functions are generated in both ways, or in none.
* **`layouts_split`**: the files of types and those of functions.
-/

namespace GrammarKit

open Code

/-- The text of a function on tokens. -/
theorem Writer.paragraph_value {function type : String} (h : typeTokens type = [.unit type]) :
    paragraph (Writer.mk function type .value).tokens = "\npub fn " ++ function ++
      " (node : & " ++ type ++
        " , _options : & StringifyOptions) -> String \x7b node . value . clone () \x7d\n" := by
  refine String.toList_injective ?_
  simp [paragraph, tokens, Task.parameters, Task.spelled, h, Token.renderAll, Token.render]

namespace StringifierPlan

/-! ## Headings -/

theorem heading_nodeFunction (m : Model) (names : Names) (e : NamedNode) :
    heading (nodeFunction m names e) = headingOf "fn" (names.functionOf e.1) := by
  unfold nodeFunction
  simp only
  split
  · rfl
  · split <;> rfl

/-- The kinds and names of the types that all functions share. -/
theorem map_heading_typeItems (p : StringifierPlan) : p.typeItems.map heading =
    [("struct", "FormattingOptions"), ("struct", "StringifyOptions"), ("type", "StringifyFn")].map
      fun k => headingOf k.1 k.2 := rfl

/-- The kinds and names of the functions that do not belong to a node. -/
theorem map_heading_helperItems (m : Model) (names : Names) : (helperItems m names).map heading =
    [("fn", "get_indentation"), ("fn", "stringify"), ("fn", "stringify_node")].map
      fun k => headingOf k.1 k.2 := rfl

/-! ## Items -/

/-- The items of the files. -/
def layout (p : StringifierPlan) : Layout :=
  [("types.rs", (if p.schemaPath.isSome then [allowUnusedImports ++ importAll (words "super")]
      else []) ++ p.typeItems)] ++
  p.model.nodes.entries.map (fun e => (nodePath (p.names.moduleOf e.1),
    [allowUnusedImports ++ importAll (words "super :: super"), nodeFunction p.model p.names e])) ++
  [("mod.rs", p.indexItems)]

theorem separateFiles_eq (p : StringifierPlan) :
    p.separateFiles = .ofList (p.layout.files p.model) := by
  have htypes : p.typesFile = codeFile p.model
      ((if p.schemaPath.isSome then [allowUnusedImports ++ importAll (words "super")] else []) ++
        p.typeItems) := by
    unfold typesFile
    split <;> rfl
  simp only [separateFiles, layout, Layout.files, List.map_append, List.map_map, List.map_cons,
    List.map_nil, htypes, codeFile_eq]
  rfl

/-- The file for a node has its function. -/
theorem exists_text_nodeFunction {p : StringifierPlan} {single : String} {separate : Files}
    {e : NamedNode} (he : e ∈ p.model.nodes.entries)
    (h : p.layout.Keeps single separate (nodeFunction p.model p.names e)) :
    ∃ text, separate.get? (nodePath (p.names.moduleOf e.1)) = some text ∧
      HasItem text (nodeFunction p.model p.names e) :=
  h.exists_text (List.mem_append_left _ (List.mem_append_right _ (List.mem_map_of_mem he)))
    (by simp)

variable (p : StringifierPlan)

/-- The declarations of a single file: types, functions for whole values, functions for nodes. -/
def declarations : List (List Token) := p.typeItems ++ helperItems p.model p.names ++ p.functions

/-- The kinds and names of the declarations. -/
def headings : List (String × String) :=
  [("struct", "FormattingOptions"), ("struct", "StringifyOptions"), ("type", "StringifyFn")] ++
    [("fn", "get_indentation"), ("fn", "stringify"), ("fn", "stringify_node")] ++
    (p.model.nodes.entries.map fun e => p.names.functionOf e.1).map (Prod.mk "fn")

theorem map_heading_declarations :
    p.declarations.map heading = p.headings.map fun k => headingOf k.1 k.2 := by
  have hfunctions : heading ∘ nodeFunction p.model p.names =
      fun e => headingOf "fn" (p.names.functionOf e.1) :=
    funext (heading_nodeFunction p.model p.names)
  simp only [declarations, headings, functions, List.map_append, map_heading_typeItems,
    map_heading_helperItems, List.map_map, hfunctions]
  rfl

theorem isDeclaration_importItem : isDeclaration p.importItem = false := by
  unfold importItem
  cases p.schemaPath with
  | none => rfl
  | some path => exact isDeclaration_importAll path

theorem filter_typeItems : p.typeItems.filter isDeclaration = p.typeItems :=
  filter_of_headings (map_heading_typeItems p) (by decide)

theorem filter_helperItems (m : Model) (names : Names) :
    (helperItems m names).filter isDeclaration = helperItems m names :=
  filter_of_headings (map_heading_helperItems m names) (by decide)

theorem isDeclaration_nodeFunction (m : Model) (names : Names) (e : NamedNode) :
    isDeclaration (nodeFunction m names e) = true :=
  isDeclaration_of_heading (heading_nodeFunction m names e) (by decide)

theorem filter_items : p.items.filter isDeclaration = p.declarations := by
  have hkinds : ∀ k ∈ p.headings, k.1 ≠ "mod" := by
    simp only [headings, List.forall_mem_append, List.forall_mem_map]
    exact ⟨by decide, fun _ _ => by decide⟩
  rw [items, List.filter_cons_of_neg (by simp [isDeclaration_importItem])]
  exact filter_of_headings p.map_heading_declarations hkinds

/-- **The files hold the declarations of the single one.** -/
theorem declarations_layout : p.layout.declarations.Perm p.declarations := by
  have htypes : ((if p.schemaPath.isSome then [allowUnusedImports ++ importAll (words "super")]
      else []) ++ p.typeItems).filter isDeclaration = p.typeItems := by
    rw [List.filter_append, filter_typeItems]
    split
    · rw [filter_import]
      rfl
    · rfl
  have hindex : p.indexItems.filter isDeclaration = helperItems p.model p.names := by
    unfold indexItems
    rw [List.cons_append, List.filter_cons_of_neg (by simp [isDeclaration_importItem]),
      List.cons_append, List.nil_append, List.filter_cons_of_neg (by exact Bool.noConfusion),
      filter_helperItems]
  have hfile (e : NamedNode) :
      [allowUnusedImports ++ importAll (words "super :: super"),
        nodeFunction p.model p.names e].filter isDeclaration = [nodeFunction p.model p.names e] := by
    rw [filter_import, List.filter_cons_of_pos (isDeclaration_nodeFunction _ _ e), List.filter_nil]
  have hlayout : p.layout.declarations =
      p.typeItems ++ p.functions ++ helperItems p.model p.names := by
    simp only [Layout.declarations, layout, List.flatMap_append, List.flatMap_cons,
      List.flatMap_nil, List.append_nil, List.flatMap_map, List.filter_append,
      List.filter_flatMap, htypes, hindex, hfile]
    rw [← List.map_eq_flatMap]
    rfl
  rw [hlayout, declarations, List.append_assoc, List.append_assoc]
  exact List.perm_append_comm.append_left _

theorem length_layout : p.layout.length = 2 + p.model.nodes.size := by
  simp only [layout, List.length_append, List.length_map, List.length_cons, List.length_nil,
    Table.size]
  omega

variable {p}

theorem nodup_headings
    (hfunctions : (p.model.nodes.entries.map fun e => p.names.functionOf e.1).Nodup)
    (hreserved : ∀ f ∈ p.model.nodes.entries.map fun e => p.names.functionOf e.1,
      f ∉ reservedFunctionNames) : p.headings.Nodup := by
  have hmap : ((p.model.nodes.entries.map fun e => p.names.functionOf e.1).map
      (Prod.mk "fn")).Nodup := hfunctions.map fun _ _ he => (Prod.mk.inj he).2
  unfold headings
  refine List.Nodup.append (by decide) hmap fun k hk hfunction => ?_
  obtain ⟨f, hf, rfl⟩ := List.mem_map.1 hfunction
  have hnot := hreserved f hf
  simp only [List.cons_append, List.nil_append, List.mem_cons, Prod.mk.injEq, List.not_mem_nil,
    or_false] at hk
  rcases hk with ⟨hk, -⟩ | ⟨hk, -⟩ | ⟨hk, -⟩ | ⟨-, rfl⟩ | ⟨-, rfl⟩ | ⟨-, rfl⟩
  · exact absurd hk (by decide)
  · exact absurd hk (by decide)
  · exact absurd hk (by decide)
  · exact hnot (by decide)
  · exact hnot (by decide)
  · exact hnot (by decide)

section Nameable

variable {m : Model} {c : Naming} (h : m.IsNameable c) (config : StringifierConfig) (unit : String)
  (path : Option (List Token))

include h

/-- **No two declarations are the same.** -/
theorem nodup_declarations :
    (StringifierPlan.mk m (namesOf c m) config unit path).declarations.Nodup := by
  refine nodup_of_headings (map_heading_declarations _) (nodup_headings ?_ ?_)
  · refine List.pairwise_map.2 (h.apart.imp_of_mem fun {a b} ha hb hab hfunction => ?_)
    rw [functionOf_namesOf (Model.node?_eq_some_iff.2 ha),
      functionOf_namesOf (Model.node?_eq_some_iff.2 hb)] at hfunction
    exact hab.function hfunction
  · refine List.forall_mem_map.2 fun e he => ?_
    rw [functionOf_namesOf (Model.node?_eq_some_iff.2 he)]
    exact (h.nodes e he).function.2

/-- **No file has the path of another one.** -/
theorem nodup_paths (hv : m.IsValid) :
    ((StringifierPlan.mk m (namesOf c m) config unit path).layout.map Prod.fst).Nodup := by
  have hpaths : (StringifierPlan.mk m (namesOf c m) config unit path).layout.map Prod.fst =
      ["types.rs"] ++ (m.nodes.entries.map fun e => (namesOf c m).moduleOf e.1).map nodePath ++
        ["mod.rs"] := by
    simp only [layout, List.map_append, List.map_map]
    rfl
  rw [hpaths]
  exact nodup_nodePaths (List.pairwise_map.2 (Names.pairwise_moduleFile h hv)) (by decide)
    (by decide)

/-- **The files hold the declarations of the single one**, each of them once. -/
theorem splits_layout (hv : m.IsValid) :
    (StringifierPlan.mk m (namesOf c m) config unit path).layout.Splits
      (StringifierPlan.mk m (namesOf c m) config unit path).items := by
  refine Layout.splits_of_perm (nodup_paths h config unit path hv) ?_ ?_
  · rw [filter_items]
    exact declarations_layout _
  · rw [filter_items]
    exact nodup_declarations h config unit path

end Nameable

end StringifierPlan

/-! ## The generators -/

variable {m : Model} {c : Naming} {config : StringifierConfig}

/-- What is planned is written, if the generator does not break down. -/
theorem generateStringifier_of_plan {unit : String} {path : Option (List Token)}
    (hfaults : m.faults = []) (h : m.IsNameable c)
    (hpath : schemaPath? config.schemaPath = some path)
    (hunit : config.indentStyle.unit? = some unit)
    (hunbroken : (generateStringifier m c config).isBroken = false) :
    generateStringifier m c config =
      .done (StringifierPlan.mk m (namesOf c m) config unit path).stringifier
        (unknownMappings c m ++ (StringifierPlan.mk m (namesOf c m) config unit path).warnings) := by
  unfold generateStringifier at hunbroken ⊢
  rw [if_neg (not_not_intro hfaults), resolveNames_eq_ok_iff.2 ⟨rfl, h⟩] at hunbroken ⊢
  simp only [hpath, hunit] at hunbroken ⊢
  split
  · rfl
  · rename_i hidentifiers
    rw [if_neg hidentifiers] at hunbroken
    cases hunbroken

/-- Functions are generated for a valid model with plain names and a plain prefix. -/
theorem exists_generateStringifier {unit : String} {path : Option (List Token)}
    (hfaults : m.faults = []) (hplain : m.hasPlainNames c = true)
    (hpath : schemaPath? config.schemaPath = some path)
    (hunit : config.indentStyle.unit? = some unit)
    (hwords : GrammarKit.isIdentifier c.functionPrefix = true) :
    ∃ s warnings, generateStringifier m c config = .done s warnings := by
  have hunbroken : (generateStringifier m c config).isBroken = false := by
    rw [Bool.eq_false_iff, Ne, isBroken_generateStringifier_iff]
    rintro ⟨-, -, -, hnone | hfront⟩
    · rw [hunit] at hnone
      cases hnone
    · rw [isWordFront_of_isIdentifier hwords] at hfront
      cases hfront
  exact ⟨_, _, generateStringifier_of_plan hfaults (Model.isNameable_of_hasPlainNames hplain) hpath
    hunit hunbroken⟩

/-- Functions are generated for a valid model whose names pass the checks. -/
theorem generateStringifier_eq_done {s : Stringifier} {warnings : List String}
    (hdone : generateStringifier m c config = .done s warnings) :
    m.faults = [] ∧ m.IsNameable c ∧ ∃ unit path, config.indentStyle.unit? = some unit ∧
      schemaPath? config.schemaPath = some path := by
  unfold generateStringifier at hdone
  split at hdone
  · cases hdone
  · rename_i hfaults
    split at hdone
    · cases hdone
    · rename_i names hnames
      split at hdone
      · cases hdone
      · rename_i path hpath
        split at hdone
        · cases hdone
        · rename_i unit hunit
          exact ⟨not_not.1 hfaults, (resolveNames_eq_ok_iff.1 hnames).2, unit, path, hunit, hpath⟩

/-- **Functions are generated in one file and in several ones alike**: with the same declarations and
the same warnings. -/
theorem generateStringifier_layouts {s : Stringifier} {warnings : List String}
    (hdone : generateStringifier m c config = .done s warnings) :
    ∃ p : StringifierPlan, p.model = m ∧ p.names = namesOf c m ∧ p.config = config ∧
      s.code = header m ++ paragraphs p.items ∧
      generateStringifier m c { config with separateFiles := true } =
        .done ⟨.ofList (p.layout.files m), s.code, s.types⟩ warnings ∧
      p.layout.Splits p.items := by
  obtain ⟨hfaults, h, unit, path, hunit, hpath⟩ := generateStringifier_eq_done hdone
  have hv := Model.faults_eq_nil_iff.1 hfaults
  have hunbroken : (generateStringifier m c config).isBroken = false := by rw [hdone]; rfl
  have hseparate :
      (generateStringifier m c { config with separateFiles := true }).isBroken = false := by
    rw [Bool.eq_false_iff, Ne, isBroken_generateStringifier_iff] at hunbroken ⊢
    exact hunbroken
  have hsame := hdone.symm.trans (generateStringifier_of_plan hfaults h hpath hunit hunbroken)
  obtain ⟨rfl, rfl⟩ := Generation.done.inj hsame
  refine ⟨⟨m, namesOf c m, config, unit, path⟩, rfl, rfl, rfl, rfl, ?_,
    StringifierPlan.splits_layout h config unit path hv⟩
  have hwritten : generateStringifier m c { config with separateFiles := true } = _ :=
    generateStringifier_of_plan hfaults h hpath hunit hseparate
  rw [StringifierPlan.stringifier, if_pos rfl, StringifierPlan.separateFiles_eq] at hwritten
  exact hwritten

/-- **Generated code stands in one file or in several ones.** The types are then in four files and
one for each deduction without a type from outside, and the functions in two files and one for each
node. No file has the path of another one. The text of a file is a header and a paragraph for each of
its items, and every declaration of the single file is an item of exactly one of the others, with the
same text. -/
theorem layouts_split (m : Model) (c : Naming) :
    (∀ (sc : SchemaConfig) files warnings, generateSchema m c sc = .done files warnings →
      ∃ p, planSchema m c sc = .ok p ∧
        generateSchema m c { sc with separateFiles := false } =
          .done (.ofList [(filePath sc.outputDir "schema.rs", header m ++ paragraphs p.items)])
            warnings ∧
        (∀ item ∈ p.items, isDeclaration item = true) ∧
        ∃ separate, generateSchema m c { sc with separateFiles := true } =
            .done separate warnings ∧
          separate.entries = (p.layout sc.outputDir).files m ∧
          separate.size =
            4 + ((m.namesOf .deduction).filter fun x => !c.typeMapping.contains x).length ∧
          (p.layout sc.outputDir).Splits p.items ∧
          ∀ item ∈ p.items,
            (p.layout sc.outputDir).Keeps (header m ++ paragraphs p.items) separate item) ∧
    ∀ (config : StringifierConfig) s warnings, generateStringifier m c config = .done s warnings →
      ∃ p : StringifierPlan, p.model = m ∧ resolveNames c m = .ok p.names ∧ p.config = config ∧
        s.code = header m ++ paragraphs p.items ∧
        (∀ e ∈ m.nodes.entries, nodeFunction m p.names e ∈ p.items ∧
          isDeclaration (nodeFunction m p.names e) = true) ∧
        ∃ separate, generateStringifier m c { config with separateFiles := true } =
            .done separate warnings ∧
          separate.code = s.code ∧ separate.files.entries = p.layout.files m ∧
          separate.files.size = 2 + m.nodes.size ∧ p.layout.Splits p.items ∧
          ∀ item ∈ p.items, isDeclaration item = true →
            p.layout.Keeps s.code separate.files item := by
  constructor
  · intro sc files warnings hdone
    obtain ⟨p, hplan, hsingle, hseparate, hlength, hsplits⟩ := generateSchema_layouts hdone
    have hentries := Layout.entries_ofList_files hsplits.paths m
    refine ⟨p, hplan, hsingle, fun item => p.isDeclaration_items, _, hseparate, hentries,
      ?_, hsplits, fun item hitem => hsplits.keeps m hitem (p.isDeclaration_items hitem)⟩
    rw [Table.size, hentries, Layout.files, List.length_map, hlength]
  · intro config s warnings hdone
    obtain ⟨-, h, -⟩ := generateStringifier_eq_done hdone
    obtain ⟨p, rfl, hnames, hconfig, hcode, hseparate, hsplits⟩ := generateStringifier_layouts hdone
    have hentries := Layout.entries_ofList_files hsplits.paths p.model
    refine ⟨p, rfl, hnames ▸ resolveNames_eq_ok_iff.2 ⟨rfl, h⟩, hconfig, hcode, fun e he => ?_,
      _, hseparate, rfl, hentries, ?_, hsplits, fun item hitem hdeclaration => ?_⟩
    · exact ⟨List.mem_cons_of_mem _ (List.mem_append_right _ (List.mem_map_of_mem he)),
        StringifierPlan.isDeclaration_nodeFunction _ _ e⟩
    · rw [Table.size, hentries, Layout.files, List.length_map, StringifierPlan.length_layout]
    · rw [hcode]
      exact hsplits.keeps p.model hitem hdeclaration

/-- One of the four nodes of the model for pairs is a deduction. The type of the start node is named
in the index of the types, and a token has a file for its function. -/
theorem layouts_split_pairs :
    (∃ files warnings separate text front back,
      generateSchema .pairs {} { separateFiles := false } = .done files warnings ∧
      generateSchema .pairs {} { separateFiles := true } = .done separate warnings ∧
      separate.size = 5 ∧ separate.get? "mod.rs" = some text ∧
      text = front ++ "\npub type Root = PairNode ;\n" ++ back) ∧
    ∃ s warnings separate text front back,
      generateStringifier .pairs {} { schemaPath := "", separateFiles := false } =
        .done s warnings ∧
      generateStringifier .pairs {} { schemaPath := "", separateFiles := true } =
        .done separate warnings ∧
      separate.files.size = 6 ∧ separate.files.get? "nodes/word.rs" = some text ∧
      text = front ++ ("\npub fn stringify_word (node : & WordToken , " ++
        "_options : & StringifyOptions) -> String \x7b node . value . clone () \x7d\n") ++ back := by
  have hfaults := Model.isAccepted_pairs.valid
  have hplain : Model.pairs.hasPlainNames {} = true := by decide +kernel
  have hnames := namesOf_eq_plain hplain
  constructor
  · obtain ⟨files, warnings, hdone⟩ :=
      exists_generateSchema { separateFiles := false } hfaults
        (Model.isNameable_of_hasPlainNames hplain) Naming.isWordBack_suffix_default
    obtain ⟨p, hplan, -, -, separate, hseparate, -, hsize, -, hkeeps⟩ :=
      (layouts_split .pairs {}).1 { separateFiles := false } files warnings hdone
    obtain rfl := Except.ok.inj ((generateSchema_eq_done hdone).2.2.1.symm.trans hplan)
    obtain ⟨text, htext, front, back, hroot⟩ := SchemaPlan.exists_text_rootAlias
      (hkeeps _ (List.mem_append_right _ List.mem_cons_self))
    have hname : (SchemaPlan.build .pairs (namesOf {} .pairs) true).rootType = "PairNode" := by
      rw [hnames]
      decide +kernel
    have htype : typeTokens "PairNode" = [.unit "PairNode"] :=
      typeTokens_of_isPlainWord (by decide) (by decide)
    refine ⟨files, warnings, separate, text, front, back, hdone, hseparate,
      hsize.trans (by decide +kernel), htext, ?_⟩
    rw [hroot, SchemaPlan.paragraph_rootAlias (by rw [hname]; exact htype), hname]
    rfl
  · obtain ⟨s, warnings, hdone⟩ : ∃ s warnings, generateStringifier .pairs {}
        { schemaPath := "", separateFiles := false } = .done s warnings :=
      exists_generateStringifier hfaults hplain (rfl : schemaPath? "" = some none)
        (rfl : (IndentStyle.spaces 2).unit? = some "  ") (by decide)
    obtain ⟨p, hmodel, hok, -, -, hfunctions, separate, hseparate, -, -, hsize, -, hkeeps⟩ :=
      (layouts_split .pairs {}).2 { schemaPath := "", separateFiles := false } s warnings hdone
    have hplanned : p.names = plainNamesOf {} .pairs :=
      (resolveNames_eq_ok_iff.1 hok).1.trans hnames
    have hword : ("Word", ({ body := .token (.regex "[a-z]+") } : Node)) ∈
        Model.pairs.nodes.entries := by
      decide +kernel
    have hwriter : writerOf .pairs p.names ("Word", { body := .token (.regex "[a-z]+") }) =
        ⟨"stringify_word", "WordToken", .value⟩ := by
      rw [hplanned, writerOf, taskOf, isMapped_plainNamesOf, if_neg Bool.false_ne_true]
      exact congrArg₂ (Writer.mk · · .value) (by decide +kernel) (by decide +kernel)
    have hpath : nodePath (p.names.moduleOf "Word") = "nodes/word.rs" := by
      rw [hplanned]
      decide +kernel
    obtain ⟨hmem, hdeclaration⟩ := hfunctions _ hword
    have hkept := hkeeps _ hmem hdeclaration
    rw [← hmodel] at hkept hword
    obtain ⟨text, htext, front, back, htexts⟩ :=
      StringifierPlan.exists_text_nodeFunction hword hkept
    refine ⟨s, warnings, separate, text, front, back, hdone, hseparate,
      hsize.trans (by decide +kernel), hpath ▸ htext, ?_⟩
    rw [htexts, hmodel, nodeFunction_eq, hwriter,
      Writer.paragraph_value (typeTokens_of_isPlainWord (by decide) (by decide))]
    rfl

end GrammarKit
