import GrammarKit.Code.File
import GrammarKit.Proofs.Model.Valid
import Mathlib.Data.List.Nodup
import Mathlib.Data.List.Pairwise

/-!
# Code in several files

The items of generated code stand in one file or are spread over several, which import each other.
An item is told by its heading, the words behind its attributes: visibility, kind and name.

* `heading`, `isDeclaration`: what an item declares; imports and modules declare nothing.
* `filter_of_headings`, `nodup_of_headings`: what the headings of items tell about them.
* `paragraph`, `codeFile_eq`: the text of a file has a paragraph for each of its items.
* `Layout`: files with their items.
* **`Layout.Splits`**: a layout spreads items over files of its own, each declaration in one of them.
* `Layout.splits_of_perm`: it does if it has the declarations of the items, and these differ.
* **`Layout.Splits.keeps`**: the text of a declaration stands in one of the files, and in no other.
* `filePath_inj`: paths in a directory that differ.
-/

namespace GrammarKit.Code

/-! ## Headings -/

/-- The tokens behind the attributes of an item. -/
def behindAttributes : List Token → List Token
  | .unit sign :: .group .bracket body :: ts =>
    if sign = "#" then behindAttributes ts else .unit sign :: .group .bracket body :: ts
  | ts => ts

/-- **The heading of an item**: its first tokens behind the attributes. -/
def heading (item : List Token) : List Token := (behindAttributes item).take 3

/-- The heading of a public declaration. -/
def headingOf (kind name : String) : List Token := [.unit "pub", .unit kind, .unit name]

/-- Whether an item is a public declaration other than that of a module. -/
def isDeclaration (item : List Token) : Bool :=
  match heading item with
  | [.unit word, .unit kind, .unit _] => word = "pub" && kind ≠ "mod"
  | _ => false

@[simp] theorem headingOf_inj {kind name kind' name' : String} :
    headingOf kind name = headingOf kind' name' ↔ kind = kind' ∧ name = name' := by
  simp [headingOf]

theorem behindAttributes_attr (body ts : List Token) :
    behindAttributes (attr body ++ ts) = behindAttributes ts := by
  show behindAttributes (.unit "#" :: .group .bracket body :: ts) = _
  rw [behindAttributes, if_pos rfl]

theorem behindAttributes_unit {word : String} (h : word ≠ "#") (ts : List Token) :
    behindAttributes (.unit word :: ts) = .unit word :: ts := by
  unfold behindAttributes
  split
  · rename_i he
    obtain ⟨hword, rfl⟩ := List.cons.inj he
    cases hword
    rw [if_neg h]
  · rfl

theorem behindAttributes_docLines (doc : Option String) (ts : List Token) :
    behindAttributes (docLines doc ++ ts) = behindAttributes ts := by
  unfold docLines
  split
  · rfl
  · rename_i text
    induction Text.lines text.toList with
    | nil => rfl
    | cons line lines ih => rw [List.flatMap_cons, List.append_assoc, behindAttributes_attr, ih]

theorem isDeclaration_of_heading {item : List Token} {kind name : String}
    (h : heading item = headingOf kind name) (hkind : kind ≠ "mod") : isDeclaration item = true := by
  rw [isDeclaration, h, headingOf]
  simp [hkind]

theorem isDeclaration_importAll (module : List Token) : isDeclaration (importAll module) = false := by
  have hheading : heading (importAll module) = .unit "use" :: (module ++ words ":: * ;").take 2 := by
    show (behindAttributes (.unit "use" :: (module ++ words ":: * ;"))).take 3 = _
    rw [behindAttributes_unit (by decide)]
    rfl
  unfold isDeclaration
  rw [hheading]
  split
  · rename_i he
    cases (List.cons.inj he).1
    rfl
  · rfl

theorem isDeclaration_attr (body ts : List Token) :
    isDeclaration (attr body ++ ts) = isDeclaration ts := by
  rw [isDeclaration, isDeclaration, heading, heading, behindAttributes_attr]

/-- The import at the top of a file is no declaration. -/
theorem filter_import (module : List Token) (items : List (List Token)) :
    ((allowUnusedImports ++ importAll module) :: items).filter isDeclaration =
      items.filter isDeclaration :=
  List.filter_cons_of_neg (by
    rw [allowUnusedImports, isDeclaration_attr, isDeclaration_importAll]
    exact Bool.false_ne_true)

/-- Items with the headings of declarations are declarations. -/
theorem filter_of_headings {items : List (List Token)} {headings : List (String × String)}
    (h : items.map heading = headings.map fun k => headingOf k.1 k.2)
    (hkinds : ∀ k ∈ headings, k.1 ≠ "mod") : items.filter isDeclaration = items := by
  refine List.filter_eq_self.2 fun item hitem => ?_
  have hheading : heading item ∈ items.map heading := List.mem_map_of_mem hitem
  rw [h] at hheading
  obtain ⟨k, hk, he⟩ := List.mem_map.1 hheading
  exact isDeclaration_of_heading he.symm (hkinds k hk)

/-- Items with different headings are different. -/
theorem nodup_of_headings {items : List (List Token)} {headings : List (String × String)}
    (h : items.map heading = headings.map fun k => headingOf k.1 k.2) (hnodup : headings.Nodup) :
    items.Nodup := by
  refine List.Nodup.of_map heading ?_
  rw [h]
  exact hnodup.map fun a b he => Prod.ext_iff.2 (headingOf_inj.1 he)

/-! ## Texts of files -/

/-- The text of an item, in a paragraph of its own. -/
def paragraph (item : List Token) : String := "\n" ++ Token.renderAll item ++ "\n"

/-- The paragraphs of items; one that is empty has none. -/
def paragraphs (items : List (List Token)) : String :=
  String.join ((items.filter (!·.isEmpty)).map paragraph)

/-- **The text of a file** is its header, with a paragraph for each item behind it. -/
theorem codeFile_eq (m : Model) (items : List (List Token)) :
    codeFile m items = header m ++ paragraphs items := rfl

theorem paragraphs_append (items more : List (List Token)) :
    paragraphs (items ++ more) = paragraphs items ++ paragraphs more := by
  rw [paragraphs, List.filter_append, List.map_append, String.join_append]
  rfl

theorem paragraphs_cons {item : List Token} (h : item ≠ []) (items : List (List Token)) :
    paragraphs (item :: items) = paragraph item ++ paragraphs items := by
  rw [paragraphs, List.filter_cons_of_pos (by simpa using h), List.map_cons, String.join_cons]
  rfl

/-- **A text has an item** in a paragraph of its own. -/
def HasItem (text : String) (item : List Token) : Prop :=
  ∃ front back, text = front ++ paragraph item ++ back

/-- What a file is made of stands in it. -/
theorem hasItem_of_mem {items : List (List Token)} {item : List Token} (h : item ∈ items)
    (hne : item ≠ []) (head : String) : HasItem (head ++ paragraphs items) item := by
  obtain ⟨before, after, rfl⟩ := List.append_of_mem h
  refine ⟨head ++ paragraphs before, paragraphs after, ?_⟩
  rw [paragraphs_append, paragraphs_cons hne]
  simp only [String.append_assoc]

theorem ne_nil_of_isDeclaration {item : List Token} (h : isDeclaration item = true) :
    item ≠ [] := by
  rintro rfl
  cases h

/-! ## Layouts -/

/-- **Files with their items**, by their paths. -/
abbrev Layout := List (String × List (List Token))

namespace Layout

/-- The files of a layout with their texts: the header, and the paragraphs of the items. -/
def files (m : Model) (l : Layout) : List (String × String) :=
  l.map fun f => (f.1, header m ++ paragraphs f.2)

/-- The declarations of a layout. -/
def declarations (l : Layout) : List (List Token) := (l.flatMap Prod.snd).filter isDeclaration

/-- **A layout spreads items over several files**: no file has the path of another one, the
declarations are those among the items, and each of them stands in exactly one file. -/
structure Splits (l : Layout) (items : List (List Token)) : Prop where
  paths : (l.map Prod.fst).Nodup
  perm : l.declarations.Perm (items.filter isDeclaration)
  unique : ∀ item ∈ items, isDeclaration item = true → ∃! f, f ∈ l ∧ item ∈ f.2

variable {l : Layout} {items : List (List Token)}

/-- **Different declarations** stand in one file each. -/
theorem splits_of_perm (hpaths : (l.map Prod.fst).Nodup)
    (hperm : l.declarations.Perm (items.filter isDeclaration))
    (hnodup : (items.filter isDeclaration).Nodup) : l.Splits items := by
  refine ⟨hpaths, hperm, fun item hitem hdeclaration => ?_⟩
  have hmem : item ∈ l.declarations := hperm.mem_iff.2 (List.mem_filter.2 ⟨hitem, hdeclaration⟩)
  obtain ⟨f, hf, hfile⟩ := List.mem_flatMap.1 (List.mem_filter.1 hmem).1
  refine ⟨f, ⟨hf, hfile⟩, fun g ⟨hg, hgitem⟩ => ?_⟩
  by_contra hne
  have hdeclarations : l.declarations.Nodup := hperm.nodup_iff.2 hnodup
  rw [declarations, List.filter_flatMap, List.nodup_flatMap] at hdeclarations
  have hsymm : Std.Symm (Function.onFun List.Disjoint
      fun f : String × List (List Token) => f.2.filter isDeclaration) :=
    ⟨fun _ _ h => List.disjoint_symm h⟩
  exact hdeclarations.2.forall hg hf hne (List.mem_filter.2 ⟨hgitem, hdeclaration⟩)
    (List.mem_filter.2 ⟨hfile, hdeclaration⟩)

/-- **A layout keeps an item of a single file**: one of its files has it, and no other one, and its
text stands there as it does in the single file. -/
def Keeps (l : Layout) (single : String) (separate : Files) (item : List Token) : Prop :=
  HasItem single item ∧ ∃ f ∈ l, item ∈ f.2 ∧ (∀ g ∈ l, item ∈ g.2 → g = f) ∧
    ∃ text, separate.get? f.1 = some text ∧ HasItem text item

/-- The text of an item stands in each file that has it. -/
theorem Keeps.exists_text {single : String} {separate : Files} {item : List Token}
    (h : l.Keeps single separate item) {f : String × List (List Token)} (hf : f ∈ l)
    (hitem : item ∈ f.2) : ∃ text, separate.get? f.1 = some text ∧ HasItem text item := by
  obtain ⟨-, g, -, -, hunique, text, htext, hhas⟩ := h
  exact ⟨text, (hunique f hf hitem).symm ▸ htext, hhas⟩

/-- Files with different paths make up a table. -/
theorem entries_ofList_files (h : (l.map Prod.fst).Nodup) (m : Model) :
    (Table.ofList (l.files m)).entries = l.files m := by
  have hnodup : ((l.files m).map Prod.fst).Nodup := by
    rw [files, List.map_map]
    exact h
  rw [Table.ofList_entries ⟨_, hnodup⟩]

/-- **Every declaration of the single file** is kept by a layout that splits its items. -/
theorem Splits.keeps (h : l.Splits items) (m : Model) {item : List Token} (hitem : item ∈ items)
    (hdeclaration : isDeclaration item = true) :
    l.Keeps (header m ++ paragraphs items) (.ofList (l.files m)) item := by
  have hne := ne_nil_of_isDeclaration hdeclaration
  obtain ⟨f, ⟨hf, hfile⟩, hunique⟩ := h.unique item hitem hdeclaration
  refine ⟨hasItem_of_mem hitem hne _, f, hf, hfile, fun g hg hgitem => hunique g ⟨hg, hgitem⟩,
    header m ++ paragraphs f.2, ?_, hasItem_of_mem hfile hne _⟩
  rw [Table.get?_eq_some_iff, entries_ofList_files h.paths]
  exact List.mem_map_of_mem hf

end Layout

/-! ## Paths -/

theorem filePath_inj {dir file other : String} (h : filePath dir file = filePath dir other) :
    file = other := by
  unfold filePath at h
  simp only at h
  split at h
  · exact h
  · simpa [String.append_right_inj] using h

end GrammarKit.Code
