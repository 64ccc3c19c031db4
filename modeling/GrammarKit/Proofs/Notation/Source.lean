import GrammarKit.Proofs.Model.Valid
import GrammarKit.Proofs.Notation.Unambiguous
import Mathlib.Data.List.Nodup

/-!
# What is read as a model

A text that is read as a model consists of a header and of one definition after the other. So names
are identifiers wherever they stand, and the nodes of the model are those of the text, in their order.

* `IsSource`, `IsSource.unique`: the texts that consist of a header and some definitions, each of them
  in one way only.
* `Model.HasIdentifiers`, `Model.faults_of_hasIdentifiers`: models whose names are identifiers, and
  the faults that they do not have.
* `IsFirstRepeat`: the name of the first definition that repeats the name of an earlier one.
* **`Model.parse_isSource`**: a text that is read as a model, or refused for a name that is defined
  twice.
-/

namespace GrammarKit.Notation

open Text

variable {source : String} {head : Header} {definitions : List (String × Node)}

/-- **Texts that consist of a header and definitions**, in this order, with blanks and comments
between them. A description in front of the header belongs to none of them. -/
def IsSource (head : Header) (definitions : List (String × Node)) (source : String) : Prop :=
  ∃ (lines : List (List Char)) (t : List Char), Spelled (lines.map .line ++ head.lexemes ++
    definitions.flatMap fun d => d.2.lexemes d.1) source.toList t ∧ Skips t []

/-- **A text consists of one header and of definitions** in one way only. -/
theorem IsSource.unique {head' : Header} {definitions' : List (String × Node)}
    (h : IsSource head definitions source) (h' : IsSource head' definitions' source) :
    head = head' ∧ definitions = definitions' := by
  obtain ⟨lines, t, hrow, hend⟩ := h
  obtain ⟨lines', t', hrow', hend'⟩ := h'
  exact source_inj (hrow.unique hrow' hend hend' (isOrdered_source lines head definitions)
    (isOrdered_source lines' head' definitions'))

/-- **What is read as a header and definitions** consists of them. -/
theorem isSource_of_modelText (h : modelText source.toList = .ok (head, definitions)) :
    IsSource head definitions source := by
  obtain ⟨u, hlines, hskip⟩ := spelled_description (trivia source.toList)
  unfold modelText at h
  obtain ⟨⟨head, s₁⟩, hhead, h⟩ := bind_ok h
  obtain ⟨⟨definitions, s₂⟩, hdefinitions, h⟩ := bind_ok h
  simp only at h
  split at h
  · rename_i hend
    cases h
    have hhead := (yields_header hhead).of_skips (List.cons_ne_nil _ _) hskip
    have hrow := (hlines.append hhead).append (yields_definition.many hdefinitions)
    exact ⟨_, s₂, hrow.of_skips (by simp [Header.lexemes]) (skips_trivia _),
      hend ▸ skips_trivia s₂⟩
  · cases h

/-! ## Names -/

theorem IsSource.isIdentifier_header (h : IsSource head definitions source) :
    isIdentifier head.name = true ∧ isIdentifier head.start = true := by
  obtain ⟨lines, t, hrow, -⟩ := h
  exact ⟨hrow.isIdentifier (by simp [Header.lexemes]), hrow.isIdentifier (by simp [Header.lexemes])⟩

/-- **The words of a definition are identifiers.** -/
theorem IsSource.isIdentifier_of_mem (h : IsSource head definitions source)
    {d : String × Node} (hd : d ∈ definitions) {x : String} (hx : .word x ∈ d.2.lexemes d.1) :
    isIdentifier x = true := by
  obtain ⟨lines, t, hrow, -⟩ := h
  exact hrow.isIdentifier (List.mem_append_right _ (List.mem_flatMap.2 ⟨d, hd, hx⟩))

theorem word_mem_lexemes (name : String) (n : Node) : .word name ∈ n.lexemes name := by
  simp [Node.lexemes]

theorem word_mem_lexemes_of_body {name x : String} {n : Node} (h : .word x ∈ n.body.lexemes) :
    .word x ∈ n.lexemes name := by
  simp [Node.lexemes, h]

theorem word_mem_lexemes_of_mem_references {name x : String} {n : Node} (hx : x ∈ n.references) :
    .word x ∈ n.lexemes name := by
  refine word_mem_lexemes_of_body ?_
  rw [Node.references] at hx
  cases hbody : n.body with
  | token p =>
    rw [hbody] at hx
    cases hx
  | deduction elements =>
    rw [hbody] at hx
    obtain ⟨e, he, rfl⟩ := List.mem_map.1 hx
    refine List.mem_flatMap.2 ⟨e, he, ?_⟩
    rw [Element.lexemes]
    split <;> simp
  | union members =>
    rw [hbody] at hx
    cases members with
    | nil => cases hx
    | cons first members => simpa [Body.lexemes] using hx

theorem word_mem_lexemes_of_property {name x : String} {n : Node} {elements : List Element}
    (hn : n.body = .deduction elements) (hx : x ∈ elements.filterMap Element.property) :
    .word x ∈ n.lexemes name := by
  refine word_mem_lexemes_of_body ?_
  obtain ⟨e, he, hproperty⟩ := List.mem_filterMap.1 hx
  rw [hn]
  exact List.mem_flatMap.2 ⟨e, he, by simp [Element.lexemes, hproperty]⟩

/-! ## Unions -/

theorem grants_members : Grants members (· ≠ []) := by
  intro s xs t h
  obtain ⟨⟨first, s₁⟩, -, h⟩ := bind_ok h
  obtain ⟨⟨rest, s₂⟩, -, h⟩ := bind_ok h
  cases h
  exact List.cons_ne_nil _ _

theorem grants_definitionBody : Grants definitionBody fun d => d.2 ≠ .union [] := by
  intro s d t h
  rcases ok_of_definitionBody h with h | h | h
  all_goals
    obtain ⟨⟨_, s₁⟩, -, h⟩ := bind_ok h
    obtain ⟨⟨name, s₂⟩, -, h⟩ := bind_ok h
    obtain ⟨⟨parts, s₃⟩, hparts, h⟩ := bind_ok h
    obtain ⟨⟨_, s₄⟩, -, h⟩ := bind_ok h
    cases h
  · exact Body.noConfusion
  · exact fun hunion => grants_members hparts (Body.union.inj hunion)
  · exact Body.noConfusion

theorem grants_definition : Grants definition fun d => d.2.body ≠ .union [] := by
  intro s d t h
  unfold definition at h
  obtain ⟨⟨⟨name, body⟩, s₁⟩, hbody, h⟩ := bind_ok h
  cases h
  exact grants_definitionBody (ok_of_mapError hbody)

/-- **A union that is read has members.** -/
theorem ne_union_nil_of_modelText {s : List Char} (h : modelText s = .ok (head, definitions)) :
    ∀ d ∈ definitions, d.2.body ≠ .union [] := by
  unfold modelText at h
  obtain ⟨⟨head, s₁⟩, -, h⟩ := bind_ok h
  obtain ⟨⟨definitions, s₂⟩, hdefinitions, h⟩ := bind_ok h
  simp only at h
  split at h
  · cases h
    exact grants_definition.many _ hdefinitions
  · cases h

/-! ## Repeats -/

/-- **`x` is the name of the first definition that repeats the name of an earlier one.** -/
def IsFirstRepeat (x : String) (definitions : List (String × Node)) : Prop :=
  ∃ front n back, definitions = front ++ (x, n) :: back ∧ (front.map Prod.fst).Nodup ∧
    x ∈ front.map Prod.fst

theorem nodup_of_firstRepeat?_eq_none {seen : List String}
    (h : firstRepeat? seen definitions = none) (hseen : seen.Nodup) :
    (seen.reverse ++ definitions.map Prod.fst).Nodup := by
  induction definitions generalizing seen with
  | nil => simpa [List.nodup_reverse] using hseen
  | cons d definitions ih =>
    obtain ⟨name, n⟩ := d
    rw [firstRepeat?] at h
    split at h
    · cases h
    · rename_i hnew
      simpa using ih h (List.nodup_cons.2 ⟨hnew, hseen⟩)

/-- The scan stops at a name that it has seen, all names before it being distinct. -/
theorem exists_of_firstRepeat? {seen : List String} {x : String}
    (h : firstRepeat? seen definitions = some x) (hseen : seen.Nodup) :
    ∃ front n back, definitions = front ++ (x, n) :: back ∧
      (seen.reverse ++ front.map Prod.fst).Nodup ∧ x ∈ seen.reverse ++ front.map Prod.fst := by
  induction definitions generalizing seen with
  | nil => cases h
  | cons d definitions ih =>
    obtain ⟨name, n⟩ := d
    rw [firstRepeat?] at h
    split at h
    · rename_i hmem
      cases h
      exact ⟨[], n, definitions, rfl, by simpa [List.nodup_reverse] using hseen, by simpa using hmem⟩
    · rename_i hnew
      obtain ⟨front, n', back, rfl, hnodup, hmem⟩ := ih h (List.nodup_cons.2 ⟨hnew, hseen⟩)
      exact ⟨(name, n) :: front, n', back, rfl, by simpa using hnodup, by simpa using hmem⟩

theorem isFirstRepeat_of_firstRepeat? {x : String} (h : firstRepeat? [] definitions = some x) :
    IsFirstRepeat x definitions := exists_of_firstRepeat? h List.nodup_nil

end GrammarKit.Notation

namespace GrammarKit

open Notation

/-- **Models whose names are identifiers**, wherever they stand, and whose unions have members. -/
structure Model.HasIdentifiers (m : Model) : Prop where
  name : isIdentifier m.name = true
  start : isIdentifier m.start = true
  names : ∀ name ∈ m.names, isIdentifier name = true
  references : ∀ {name n}, m.node? name = some n → ∀ x ∈ n.references, isIdentifier x = true
  properties : ∀ {name n es}, m.node? name = some n → n.body = .deduction es →
    ∀ p ∈ es.filterMap Element.property, isIdentifier p = true
  members : ∀ {name n xs}, m.node? name = some n → n.body = .union xs → xs ≠ []

namespace Model

variable {m : Model}

theorem eq_of_mem_propertyFaults {owner : String} {seen properties : List String} {f : Fault}
    (hf : f ∈ propertyFaults owner seen properties)
    (hall : ∀ p ∈ properties, isIdentifier p = true) :
    f = .reservedProperty owner ∨ ∃ p, f = .duplicateProperty p owner := by
  induction properties generalizing seen with
  | nil => cases hf
  | cons p properties ih =>
    obtain ⟨hp, hall⟩ := List.forall_mem_cons.1 hall
    rw [propertyFaults, List.mem_append, List.mem_append] at hf
    rcases hf with (hname | hseen) | hrest
    · rw [propertyNameFaults, if_pos hp] at hname
      split at hname
      · exact .inl (List.mem_singleton.1 hname)
      · cases hname
    · split at hseen
      · exact .inr ⟨p, List.mem_singleton.1 hseen⟩
      · cases hseen
    · exact ih hrest hall

/-- **With identifiers for names and members in every union**, what can still be wrong with a model
are missing nodes and properties that are repeated or reserved. -/
theorem faults_of_hasIdentifiers (h : m.HasIdentifiers) {f : Fault} (hf : f ∈ m.faults) :
    (∀ name, f ≠ .invalidNodeName name) ∧ (∀ p owner, f ≠ .invalidPropertyName p owner) ∧
      ∀ name, f ≠ .emptyUnion name := by
  have hnames : m.nameFaults = [] := nameFaults_eq_nil.2 h.names
  rw [faults, hnames, List.append_nil] at hf
  simp only [List.mem_append] at hf
  rcases hf with ((hempty | hstart) | hreference) | hbody
  · split at hempty
    · rw [List.mem_singleton.1 hempty]
      simp
    · cases hempty
  · split at hstart
    · cases hstart
    · rw [List.mem_singleton.1 hstart]
      simp
  · simp only [referenceFaults, List.mem_flatMap, List.mem_map] at hreference
    obtain ⟨e, -, x, -, rfl⟩ := hreference
    simp
  · obtain ⟨e, he, hbody⟩ := List.mem_flatMap.1 hbody
    have hnode := node?_eq_some_iff.2 he
    cases hb : e.2.body with
    | token p =>
      rw [hb] at hbody
      cases hbody
    | deduction elements =>
      rw [hb] at hbody
      obtain rfl | ⟨p, rfl⟩ := eq_of_mem_propertyFaults hbody (h.properties hnode hb) <;> simp
    | union members =>
      rw [hb, Body.faults, if_neg (h.members hnode hb)] at hbody
      cases hbody

theorem hasIdentifiers_of_modelText {source : String} {head : Header}
    (htext : modelText source.toList = .ok (head, m.nodes.entries)) (hname : m.name = head.name)
    (hstart : m.start = head.start) : m.HasIdentifiers := by
  have hsource := isSource_of_modelText htext
  refine ⟨hname ▸ hsource.isIdentifier_header.1, hstart ▸ hsource.isIdentifier_header.2, ?_, ?_, ?_,
    ?_⟩
  · rintro name hmem
    obtain ⟨⟨name, n⟩, he, rfl⟩ := List.mem_map.1 hmem
    exact hsource.isIdentifier_of_mem he (word_mem_lexemes name n)
  · intro name n hn x hx
    exact hsource.isIdentifier_of_mem (node?_eq_some_iff.1 hn) (word_mem_lexemes_of_mem_references hx)
  · intro name n es hn hes p hp
    exact hsource.isIdentifier_of_mem (node?_eq_some_iff.1 hn) (word_mem_lexemes_of_property hes hp)
  · rintro name n xs hn hxs rfl
    exact ne_union_nil_of_modelText htext _ (node?_eq_some_iff.1 hn) hxs

/-- A text is read as a model if its definitions have distinct names. -/
theorem exists_of_parse {source : String} (h : Model.parse source = .ok m) :
    ∃ head, modelText source.toList = .ok (head, m.nodes.entries) ∧ m.name = head.name ∧
      m.version = head.version.getD defaultVersion ∧ m.start = head.start := by
  unfold Model.parse at h
  simp only at h
  split at h
  · cases h
  · rename_i head definitions htext
    split at h
    · cases h
    · rename_i hrepeat
      have hnodup : (definitions.map Prod.fst).Nodup :=
        nodup_of_firstRepeat?_eq_none hrepeat List.nodup_nil
      have hentries : (Table.ofList definitions).entries = definitions := by
        rw [Table.ofList_entries ⟨definitions, hnodup⟩]
      cases h
      exact ⟨head, by rw [hentries, htext], rfl, rfl, rfl⟩

theorem exists_of_parse_duplicateNode {source x : String}
    (h : Model.parse source = .error (.duplicateNode x)) :
    ∃ head definitions, modelText source.toList = .ok (head, definitions) ∧
      IsFirstRepeat x definitions := by
  unfold Model.parse at h
  simp only at h
  split at h
  · cases h
  · rename_i head definitions htext
    split at h
    · rename_i hrepeat
      cases h
      exact ⟨head, definitions, htext, isFirstRepeat_of_firstRepeat? hrepeat⟩
    · cases h

/-- **A text that is read as a model** consists of the header and the nodes of that model, in their
order, and all names in it are identifiers. **A text that is refused for a name that is defined
twice** consists of a header and definitions, and the name is that of the first definition that
repeats an earlier one. No text consists of a header and definitions in two ways. -/
theorem parse_isSource (source : String) :
    (∀ head definitions head' definitions', IsSource head definitions source →
      IsSource head' definitions' source → head = head' ∧ definitions = definitions') ∧
    (∀ m, Model.parse source = .ok m →
      (∃ version, IsSource ⟨m.name, version, m.start⟩ m.nodes.entries source ∧
        m.version = version.getD defaultVersion) ∧
      m.HasIdentifiers ∧ m.names.Nodup ∧
      ∀ f ∈ m.faults, (∀ name, f ≠ .invalidNodeName name) ∧
        (∀ p owner, f ≠ .invalidPropertyName p owner) ∧ ∀ name, f ≠ .emptyUnion name) ∧
    ∀ x, Model.parse source = .error (.duplicateNode x) →
      ∃ head definitions, IsSource head definitions source ∧ IsFirstRepeat x definitions := by
  refine ⟨fun _ _ _ _ h h' => h.unique h', fun m h => ?_, fun x h => ?_⟩
  · obtain ⟨head, htext, hname, hversion, hstart⟩ := exists_of_parse h
    have hidentifiers : m.HasIdentifiers := hasIdentifiers_of_modelText htext hname hstart
    have hsource : IsSource ⟨m.name, head.version, m.start⟩ m.nodes.entries source := by
      rw [hname, hstart]
      exact isSource_of_modelText htext
    exact ⟨⟨head.version, hsource, hversion⟩, hidentifiers, m.nodes.nodup,
      fun f => faults_of_hasIdentifiers hidentifiers⟩
  · obtain ⟨head, definitions, htext, hrepeat⟩ := exists_of_parse_duplicateNode h
    exact ⟨head, definitions, isSource_of_modelText htext, hrepeat⟩

/-- A text of three definitions, with comments and a property. -/
def bitsText : String :=
  "/// Bits.\ngrammar Bits // no version\nstart Bits; token Zero = \"0\";
   union Bit = Zero; deduction Bits = bit:Bit Zero;"

/-- The model that `bitsText` writes. -/
def bits : Model where
  name := "Bits"
  version := "1.0.0"
  start := "Bits"
  nodes := ⟨[
    ("Zero", { body := .token (.literal "0") }),
    ("Bit", { body := .union ["Zero"] }),
    ("Bits", { body := .deduction [⟨"Bit", some "bit"⟩, ⟨"Zero", none⟩] })], by decide⟩

/-- A text with two names that are defined twice. -/
def repeatedText : String :=
  "grammar Bits start Bit; token Bit = \"1\"; token Zero = \"0\"; token Zero = \"O\"; token Bit = \"l\";"

theorem parse_isSource_bits :
    (Model.parse bitsText = .ok bits ∧
      ∃ version, IsSource ⟨"Bits", version, "Bits"⟩ bits.nodes.entries bitsText) ∧
    Model.parse repeatedText = .error (.duplicateNode "Zero") ∧
      ∃ head definitions, IsSource head definitions repeatedText ∧
        IsFirstRepeat "Zero" definitions := by
  have hok : Model.parse bitsText = .ok bits := by decide +kernel
  have herror : Model.parse repeatedText = .error (.duplicateNode "Zero") := by decide +kernel
  obtain ⟨⟨version, hsource, -⟩, -⟩ := (parse_isSource bitsText).2.1 bits hok
  exact ⟨⟨hok, version, hsource⟩, herror, (parse_isSource repeatedText).2.2 "Zero" herror⟩

end Model

end GrammarKit
