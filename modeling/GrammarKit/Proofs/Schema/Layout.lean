import GrammarKit.Proofs.Code.Layout
import GrammarKit.Proofs.Schema.Conversions

/-!
# Types in several files

Generated types stand in one file, or in a file per kind and per deduction. Both hold the same
declarations, and no file takes the place of another one: modules differ, and so do their files,
although the mark of raw names is left out there.

* `moduleFile_of_snakeIdent?`: the file of a module is named by the node in lower case.
* `SchemaPlan.layout`: the items of the files.
* `SchemaPlan.nodup_paths`, `SchemaPlan.nodup_items`: files and declarations that differ.
* **`SchemaPlan.splits_layout`**: the files hold the declarations of the single one.
* `generateSchema_layouts`: types are generated in both ways, or in none.
-/

namespace GrammarKit

open Code

/-! ## Files of modules -/

/-- **The file of a module** is named by the node in lower case, be the module raw or not. -/
theorem moduleFile_of_snakeIdent? {name s : String} (hname : isIdentifier name = true)
    (h : snakeIdent? name = some s) : moduleFile s = snakeCase name := by
  obtain ⟨-, rfl | rfl⟩ := snakeIdent?_cases h
  · unfold moduleFile
    split
    · rename_i rest hraw
      have hpart := isIdentifierPart_of_mem_snakeCase hname '#' (by rw [hraw]; simp)
      cases hpart
    · rfl
  · rw [moduleFile, String.toList_append]
    exact String.ofList_toList

namespace Names

variable {m : Model} {c : Naming}

theorem moduleFile_moduleOf (h : m.IsNameable c) (hv : m.IsValid) {e : NamedNode}
    (he : e ∈ m.nodes.entries) : moduleFile ((namesOf c m).moduleOf e.1) = snakeCase e.1 := by
  obtain ⟨s, hs⟩ := (h.nodes e he).module
  have hmodule : (namesOf c m).moduleOf e.1 = s := by
    simp [moduleOf, lookup, get?_namesOf, Model.node?_eq_some_iff.2 he, module_nodeNames,
      show snakeIdent? e.1 = some s from hs]
  rw [hmodule]
  exact moduleFile_of_snakeIdent? (hv.names e.1 (List.mem_map_of_mem he)) hs

/-- **Different nodes have different files.** -/
theorem pairwise_moduleFile (h : m.IsNameable c) (hv : m.IsValid) :
    m.nodes.entries.Pairwise fun a b =>
      moduleFile ((namesOf c m).moduleOf a.1) ≠ moduleFile ((namesOf c m).moduleOf b.1) := by
  refine h.apart.imp_of_mem fun {a b} ha hb hab hfile => ?_
  rw [moduleFile_moduleOf h hv ha, moduleFile_moduleOf h hv hb] at hfile
  obtain ⟨s, hs⟩ := (h.nodes b hb).module
  refine hab.module s hs ?_
  unfold chosenModule? snakeIdent? at hs ⊢
  rwa [hfile]

end Names

/-- The path of the file for a node. -/
def nodePath (module : String) : String := "nodes/" ++ moduleFile module ++ ".rs"

/-- Files for nodes differ from each other and from files that stand elsewhere. -/
theorem nodup_nodePaths {front back modules : List String}
    (hmodules : modules.Pairwise fun a b => moduleFile a ≠ moduleFile b)
    (hothers : (front ++ back).Nodup) (hhead : ∀ f ∈ front ++ back, f.toList.head? ≠ some 'n') :
    (front ++ modules.map nodePath ++ back).Nodup := by
  have hnodes : (modules.map nodePath).Nodup := by
    refine List.pairwise_map.2 (hmodules.imp fun {a b} hab hpath => hab ?_)
    simpa [nodePath, String.append_left_inj, String.append_right_inj] using hpath
  have hapart : ∀ f ∈ modules.map nodePath, f ∉ front ++ back := by
    intro f hf hmem
    obtain ⟨module, -, rfl⟩ := List.mem_map.1 hf
    refine hhead _ hmem ?_
    simp [nodePath]
  rw [List.append_assoc, List.perm_append_comm.append_left front |>.nodup_iff, ← List.append_assoc]
  exact hothers.append hnodes fun f hf hnode => hapart f hnode hf

namespace SchemaPlan

/-! ## Headings -/

theorem heading_constants (p : SchemaPlan) :
    heading p.constants = headingOf "const" "GRAMMAR_NAME" := rfl

theorem heading_tokenItem (d : TokenDecl) : heading (tokenItem d) = headingOf "struct" d.type := by
  simp only [tokenItem, List.append_assoc]
  rw [heading, behindAttributes_docLines]
  rfl

theorem heading_unionItem (d : UnionDecl) : heading (unionItem d) = headingOf "enum" d.type := by
  simp only [unionItem, List.append_assoc]
  rw [heading, behindAttributes_docLines]
  rfl

theorem heading_deductionItem (d : DeductionDecl) :
    heading (deductionItem d) = headingOf "struct" d.type := by
  simp only [deductionItem, List.append_assoc]
  rw [heading, behindAttributes_docLines]
  rfl

theorem heading_sumItem (sum : String) (variants : List SumVariant) :
    heading (sumItem sum variants) = headingOf "enum" sum := rfl

theorem heading_rootAlias (p : SchemaPlan) : heading p.rootAlias = headingOf "type" "Root" := rfl

/-- The text of the name for the type of the start node. -/
theorem paragraph_rootAlias {p : SchemaPlan} (h : typeTokens p.rootType = [.unit p.rootType]) :
    paragraph p.rootAlias = "\npub type Root = " ++ p.rootType ++ " ;\n" := by
  have hfront : words "pub type Root =" = ["pub", "type", "Root", "="].map Token.unit := rfl
  have hback : words ";" = [";"].map Token.unit := rfl
  refine String.toList_injective ?_
  simp [paragraph, rootAlias, h, hfront, hback, Token.renderAll, Token.render]

/-- The kinds and names of the declarations in a single file. -/
def headings (p : SchemaPlan) : List (String × String) :=
  [("const", "GRAMMAR_NAME")] ++
    ((p.declaredTokens.map TokenDecl.type).map (Prod.mk "struct") ++
      if p.tokens = [] then [] else [("enum", "AnyToken")]) ++
    (p.declaredUnions.map UnionDecl.type).map (Prod.mk "enum") ++
    (p.declaredDeductions.map DeductionDecl.type).map (Prod.mk "struct") ++
    [("type", "Root"), ("enum", "AnyNode")]

theorem map_heading_items (p : SchemaPlan) :
    p.items.map heading = p.headings.map fun k => headingOf k.1 k.2 := by
  have htokens : heading ∘ tokenItem = headingOf "struct" ∘ TokenDecl.type :=
    funext heading_tokenItem
  have hunions : heading ∘ unionItem = headingOf "enum" ∘ UnionDecl.type :=
    funext heading_unionItem
  have hdeductions : heading ∘ deductionItem = headingOf "struct" ∘ DeductionDecl.type :=
    funext heading_deductionItem
  have hany : (if p.tokens = [] then [] else [sumItem "AnyToken" p.tokenVariants]).map heading =
      (if p.tokens = [] then [] else [("enum", "AnyToken")]).map fun k => headingOf k.1 k.2 := by
    split
    · rfl
    · rw [List.map_singleton, heading_sumItem, List.map_singleton]
  simp only [items, tokenItems, headings, List.map_append, List.map_map, htokens, hunions,
    hdeductions, hany, List.map_cons, List.map_nil, heading_constants, heading_rootAlias, anyNode,
    heading_sumItem]
  rfl

/-- **All items of a single file are declarations.** -/
theorem filter_items (p : SchemaPlan) : p.items.filter isDeclaration = p.items := by
  refine filter_of_headings (map_heading_items p) ?_
  have hany : ∀ k ∈ if p.tokens = [] then [] else [("enum", "AnyToken")], k.1 ≠ "mod" := by
    split <;> decide
  simp only [headings, List.forall_mem_append, List.forall_mem_map]
  exact ⟨⟨⟨⟨by decide, fun _ _ => by decide, hany⟩, fun _ _ => by decide⟩,
    fun _ _ => by decide⟩, by decide⟩

/-! ## Items -/

/-- The items of the files. -/
def layout (p : SchemaPlan) (dir : String) : Layout :=
  [(filePath dir "constants.rs", [p.constants]),
    (filePath dir "token_types.rs", p.tokenItems),
    (filePath dir "union_types.rs", p.unionItems)] ++
  p.declaredDeductions.map (fun d => (filePath dir (nodePath d.module),
    [allowUnusedImports ++ importAll (words "super :: super"), deductionItem d])) ++
  [(filePath dir "mod.rs", p.indexItems)]

theorem paths_layout (p : SchemaPlan) (dir : String) : (p.layout dir).map Prod.fst =
    (["constants.rs", "token_types.rs", "union_types.rs"] ++
      (p.declaredDeductions.map DeductionDecl.module).map nodePath ++ ["mod.rs"]).map
        (filePath dir) := by
  simp only [layout, List.map_append, List.map_map, List.map_cons, List.map_nil,
    Function.comp_def]

theorem separateFiles_eq (p : SchemaPlan) (m : Model) (dir : String) :
    p.separateFiles m dir = .ofList ((p.layout dir).files m) := by
  have hfile : deductionFile m dir = fun d => (filePath dir (nodePath d.module), codeFile m
      [allowUnusedImports ++ importAll (words "super :: super"), deductionItem d]) := rfl
  simp only [separateFiles, layout, Layout.files, List.map_append, List.map_map, List.map_cons,
    List.map_nil, hfile, codeFile_eq, Function.comp_def]

/-- The index has the name for the type of the start node. -/
theorem exists_text_rootAlias {p : SchemaPlan} {dir single : String} {separate : Files}
    (h : (p.layout dir).Keeps single separate p.rootAlias) :
    ∃ text, separate.get? (filePath dir "mod.rs") = some text ∧ HasItem text p.rootAlias :=
  h.exists_text (List.mem_append_right _ (List.mem_singleton_self _)) (by simp [indexItems])

variable (p : SchemaPlan)

theorem isDeclaration_items {item : List Token} (h : item ∈ p.items) : isDeclaration item = true :=
  List.filter_eq_self.1 p.filter_items item h

theorem filter_of_subset {items : List (List Token)} (h : ∀ item ∈ items, item ∈ p.items) :
    items.filter isDeclaration = items :=
  List.filter_eq_self.2 fun item hitem => p.isDeclaration_items (h item hitem)

theorem isDeclaration_deductionItem (d : DeductionDecl) : isDeclaration (deductionItem d) = true :=
  isDeclaration_of_heading (heading_deductionItem d) (by decide)

theorem filter_unionItems : p.unionItems.filter isDeclaration = p.declaredUnions.map unionItem := by
  unfold unionItems
  split
  · rename_i hnil
    rw [hnil]
    rfl
  · rw [List.filter_cons_of_neg (by simp [isDeclaration_importAll])]
    exact p.filter_of_subset fun item h => by simp [items, h]

theorem filter_indexItems : p.indexItems.filter isDeclaration = [p.rootAlias, p.anyNode] := by
  have hmodules (modules : List String) :
      ¬ isDeclaration (if modules = [] then [] else nodesModule modules) = true := by
    split <;> exact Bool.noConfusion
  unfold indexItems
  rw [List.filter_cons_of_neg (by exact Bool.noConfusion), List.filter_cons_of_neg (hmodules _)]
  exact p.filter_of_subset fun item h => List.mem_append_right _ h

/-- **The files hold the declarations of the single one**, in the same order. -/
theorem declarations_layout (dir : String) : (p.layout dir).declarations = p.items := by
  have hconstants : [p.constants].filter isDeclaration = [p.constants] :=
    p.filter_of_subset fun item h => by simp [items, List.mem_singleton.1 h]
  have htokens : p.tokenItems.filter isDeclaration = p.tokenItems :=
    p.filter_of_subset fun item h => by simp [items, h]
  have hfile (d : DeductionDecl) :
      [allowUnusedImports ++ importAll (words "super :: super"), deductionItem d].filter
        isDeclaration = [deductionItem d] := by
    rw [filter_import, List.filter_cons_of_pos (isDeclaration_deductionItem d), List.filter_nil]
  simp only [Layout.declarations, layout, List.flatMap_append, List.flatMap_cons, List.flatMap_nil,
    List.flatMap_map, List.filter_append, List.filter_flatMap, hconstants, htokens,
    filter_unionItems, filter_indexItems, hfile, List.filter_nil, items]
  rw [← List.map_eq_flatMap]
  simp

end SchemaPlan

/-! ## Declarations that differ -/

/-- Declarations of different nodes differ where their nodes do. -/
theorem nodup_map_declared {m : Model} {α : Type} {decl? : NamedNode → Option α}
    {mapped : α → Bool} {f : α → String} {g : NamedNode → String}
    (hdecl : ∀ e d, decl? e = some d → f d = g e)
    (hg : m.nodes.entries.Pairwise fun a b => g a ≠ g b) :
    (((m.nodes.entries.filterMap decl?).filter (!mapped ·)).map f).Nodup := by
  refine List.pairwise_map.2 (List.Pairwise.filter _ (List.pairwise_filterMap.2 (hg.imp ?_)))
  intro a b hab d hd d' hd' he
  exact hab ((hdecl a d hd).symm.trans (he.trans (hdecl b d' hd')))

namespace SchemaPlan

theorem nodup_headings {p : SchemaPlan} (htokens : (p.declaredTokens.map TokenDecl.type).Nodup)
    (hunions : (p.declaredUnions.map UnionDecl.type).Nodup)
    (hdeductions : (p.declaredDeductions.map DeductionDecl.type).Nodup)
    (hapart : ∀ t ∈ p.declaredTokens.map TokenDecl.type,
      ∀ d ∈ p.declaredDeductions.map DeductionDecl.type, t ≠ d)
    (htoken : "AnyToken" ∉ p.declaredUnions.map UnionDecl.type)
    (hnode : "AnyNode" ∉ p.declaredUnions.map UnionDecl.type) : p.headings.Nodup := by
  have hmap (kind : String) {names : List String} (h : names.Nodup) :
      (names.map (Prod.mk kind)).Nodup := h.map fun _ _ he => (Prod.mk.inj he).2
  have hne : ∀ u ∈ p.declaredUnions.map UnionDecl.type, u ≠ "AnyNode" :=
    fun u hu he => hnode (he ▸ hu)
  unfold headings
  generalize p.declaredTokens.map TokenDecl.type = tokens at htokens hapart ⊢
  generalize p.declaredUnions.map UnionDecl.type = unions at hunions htoken hne ⊢
  generalize p.declaredDeductions.map DeductionDecl.type = deductions at hdeductions hapart ⊢
  split <;>
    simpa [List.nodup_append, hmap, htokens, hunions, hdeductions, or_imp, forall_and, htoken]
      using ⟨hne, hapart⟩

section Build

variable {m : Model} {c : Naming} (h : m.IsNameable c) (docs : Bool)

include h

theorem pairwise_typeOf :
    m.nodes.entries.Pairwise fun a b => (namesOf c m).typeOf a.1 ≠ (namesOf c m).typeOf b.1 := by
  refine h.apart.imp_of_mem fun {a b} ha hb hab htype => ?_
  rw [typeOf_namesOf (Model.node?_eq_some_iff.2 ha), typeOf_namesOf (Model.node?_eq_some_iff.2 hb)]
    at htype
  exact hab.type htype

/-- No union is declared by a reserved name. -/
theorem notMem_unionTypes {type : String} (htype : type ∈ reservedTypeNames) :
    type ∉ (build m (namesOf c m) docs).declaredUnions.map UnionDecl.type := by
  intro hmem
  obtain ⟨d, hd, rfl⟩ := List.mem_map.1 hmem
  obtain ⟨e, he, hunion, hmapped⟩ := exists_of_mem_declared hd
  obtain ⟨-, -, hdecl, -, hflag⟩ := of_unionDecl? hunion
  rw [hdecl] at htype
  exact typeOf_notMem_reserved h he (hflag.symm.trans hmapped) htype

/-- **No two declarations are the same.** -/
theorem nodup_items : (build m (namesOf c m) docs).items.Nodup := by
  refine nodup_of_headings (map_heading_items _) (nodup_headings ?_ ?_ ?_ ?_ ?_ ?_)
  · exact nodup_map_declared (fun e d hd => (of_tokenDecl? hd).1) (pairwise_typeOf h)
  · refine nodup_map_declared (fun e d hd => ?_) (pairwise_typeOf h)
    obtain ⟨-, -, htype, -⟩ := of_unionDecl? hd
    exact htype
  · refine nodup_map_declared (fun e d hd => ?_) (pairwise_typeOf h)
    obtain ⟨-, -, htype, -⟩ := of_deductionDecl? hd
    exact htype
  -- a token and a deduction of one type would be one node
  · simp only [List.forall_mem_map]
    intro t ht d hd htype
    obtain ⟨a, ha, htoken, -⟩ := exists_of_mem_declared ht
    obtain ⟨b, hb, hdeduction, -⟩ := exists_of_mem_declared hd
    obtain ⟨elements, hbody, htypeb, -⟩ := of_deductionDecl? hdeduction
    rw [(of_tokenDecl? htoken).1, htypeb] at htype
    have hname := typeOf_inj h (Model.node?_eq_some_iff.2 ha) (Model.node?_eq_some_iff.2 hb) htype
    have hnode : m.node? b.1 = some a.2 := hname ▸ Model.node?_eq_some_iff.2 ha
    rw [Model.node?_eq_some_iff.2 hb] at hnode
    rw [tokenDecl?, ← Option.some.inj hnode, hbody] at htoken
    cases htoken
  · exact notMem_unionTypes h docs (by decide)
  · exact notMem_unionTypes h docs (by decide)

variable (hv : m.IsValid) (dir : String)

include hv

/-- **No file has the path of another one.** -/
theorem nodup_paths : (((build m (namesOf c m) docs).layout dir).map Prod.fst).Nodup := by
  have hfiles : ((build m (namesOf c m) docs).declaredDeductions.map
      fun d => moduleFile d.module).Nodup := by
    refine nodup_map_declared (fun e d hd => ?_) (Names.pairwise_moduleFile h hv)
    obtain ⟨-, -, -, -, hmodule, -⟩ := of_deductionDecl? hd
    exact congrArg moduleFile hmodule
  have hmodules : ((build m (namesOf c m) docs).declaredDeductions.map DeductionDecl.module).Pairwise
      fun a b => moduleFile a ≠ moduleFile b := List.pairwise_map.2 (List.pairwise_map.1 hfiles)
  rw [paths_layout]
  exact (nodup_nodePaths hmodules (by decide) (by decide)).map fun _ _ => filePath_inj

/-- **The files hold the declarations of the single one**, each of them once. -/
theorem splits_layout :
    ((build m (namesOf c m) docs).layout dir).Splits (build m (namesOf c m) docs).items := by
  refine Layout.splits_of_perm (nodup_paths h docs hv dir) ?_ ?_
  · rw [filter_items, declarations_layout]
  · rw [filter_items]
    exact nodup_items h docs

end Build

/-- The deductions that are declared are those without a type from outside. -/
theorem length_declaredDeductions (m : Model) (c : Naming) (docs : Bool) :
    (build m (namesOf c m) docs).declaredDeductions.length =
      ((m.namesOf .deduction).filter fun x => !c.typeMapping.contains x).length := by
  have hmapped : ∀ x ∈ m.namesOf .deduction,
      (!c.typeMapping.contains x) = !(namesOf c m).isMapped x := by
    intro x hx
    obtain ⟨n, hn, -⟩ := Model.node?_of_mem_namesOf hx
    rw [isMapped_namesOf hn, mappedType?, Option.isSome_map, Table.contains]
  rw [List.filter_congr hmapped]
  generalize namesOf c m = names
  unfold declaredDeductions build Model.namesOf
  simp only
  induction m.nodes.entries with
  | nil => rfl
  | cons e entries ih =>
    cases hb : e.2.body <;> cases hmapped : names.isMapped e.1 <;>
      simp [deductionDecl?, hb, hmapped, Node.kind, ih]

theorem length_layout (p : SchemaPlan) (dir : String) :
    (p.layout dir).length = 4 + p.declaredDeductions.length := by
  simp only [layout, List.length_append, List.length_map, List.length_cons, List.length_nil]
  omega

end SchemaPlan

/-! ## The generator -/

variable {m : Model} {c : Naming} {sc : SchemaConfig}

/-- **Types are generated in one file and in several ones alike**: with the same declarations and
the same warnings. -/
theorem generateSchema_layouts {files : Files} {warnings : List String}
    (hdone : generateSchema m c sc = .done files warnings) :
    ∃ p, planSchema m c sc = .ok p ∧
      generateSchema m c { sc with separateFiles := false } =
        .done (.ofList [(filePath sc.outputDir "schema.rs", header m ++ paragraphs p.items)])
          warnings ∧
      generateSchema m c { sc with separateFiles := true } =
        .done (.ofList ((p.layout sc.outputDir).files m)) warnings ∧
      (p.layout sc.outputDir).length =
        4 + ((m.namesOf .deduction).filter fun x => !c.typeMapping.contains x).length ∧
      (p.layout sc.outputDir).Splits p.items := by
  obtain ⟨hv, h, hplan, -⟩ := generateSchema_eq_done hdone
  have hunbroken (separate : Bool) :
      (generateSchema m c { sc with separateFiles := separate }).isBroken = false := by
    have hsame : (generateSchema m c { sc with separateFiles := separate }).isBroken = true ↔
        (generateSchema m c sc).isBroken = true := by
      rw [isBroken_generateSchema_iff, isBroken_generateSchema_iff]
    rw [Bool.eq_false_iff, Ne, hsame, hdone]
    exact Bool.noConfusion
  have hplans (separate : Bool) : planSchema m c { sc with separateFiles := separate } =
      .ok (.build m (namesOf c m) sc.includeDocumentation) := hplan
  have hwarnings := hdone.symm.trans
    (generateSchema_of_planSchema hplan (by rw [hdone]; rfl))
  obtain ⟨-, rfl⟩ := Generation.done.inj hwarnings
  refine ⟨_, hplan, generateSchema_of_planSchema (hplans false) (hunbroken false), ?_, ?_,
    SchemaPlan.splits_layout h _ hv _⟩
  · rw [← SchemaPlan.separateFiles_eq]
    exact generateSchema_of_planSchema (hplans true) (hunbroken true)
  · rw [SchemaPlan.length_layout, SchemaPlan.length_declaredDeductions]

end GrammarKit
