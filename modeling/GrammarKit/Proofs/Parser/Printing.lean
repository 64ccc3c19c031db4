import GrammarKit.Proofs.Parser.Values

/-!
# Printing what was read

A value that was read from a text is printed as this text, but for blanks: the tokens of the text
stand in the value in their order, except for those that elements without a property leave out, and
such an element prints the text of its token if this is fixed.

* `withoutBlanks`: a text without its blanks.
* `Model.PrintsAll`: elements without a property refer to tokens of fixed text.
* `Model.Reprints`: what the tree of a node has to do with the text that it was read from.
* `reprints_of_readNode`: every tree that a node reads has to do with its text in this way.
* **`withoutBlanks_stringify_parse`**: reading and printing keep a text, but for blanks.
-/

namespace GrammarKit

open Peg

/-! ## Blanks -/

/-- A text without its blanks. -/
def withoutBlanks (s : List Char) : List Char := s.filter fun c => !Text.isBlank c

@[simp] theorem withoutBlanks_nil : withoutBlanks [] = [] := rfl

@[simp] theorem withoutBlanks_append (s t : List Char) :
    withoutBlanks (s ++ t) = withoutBlanks s ++ withoutBlanks t := List.filter_append _ _

@[simp] theorem withoutBlanks_dropBlanks (s : List Char) :
    withoutBlanks (dropBlanks s) = withoutBlanks s := by
  induction s with
  | nil => rfl
  | cons c s ih =>
    by_cases hc : Text.isBlank c = true
    · rw [dropBlanks, List.dropWhile_cons_of_pos hc]
      exact ih.trans (by simp [withoutBlanks, hc])
    · rw [dropBlanks, List.dropWhile_cons_of_neg hc]

theorem exists_dropBlanks (s : List Char) :
    ∃ blanks, s = blanks ++ dropBlanks s ∧ withoutBlanks blanks = [] := by
  refine ⟨s.takeWhile Text.isBlank, List.takeWhile_append_dropWhile.symm, ?_⟩
  rw [withoutBlanks, List.filter_eq_nil_iff]
  intro c hc
  simp [List.all_eq_true.1 List.all_takeWhile c hc]

theorem withoutBlanks_separator (o : StringifyOptions) :
    withoutBlanks o.separator.toList = [] := by
  rw [StringifyOptions.separator]
  split
  · decide
  · decide

/-- Texts with a separator between them of which nothing is kept keep what each of them keeps. -/
theorem filter_intercalate {p : Char → Bool} {separator : String}
    (h : separator.toList.filter p = []) (texts : List String) :
    (separator.intercalate texts).toList.filter p = texts.flatMap fun s => s.toList.filter p := by
  rw [String.toList_intercalate]
  induction texts with
  | nil => rfl
  | cons s texts ih =>
    cases texts with
    | nil => simp
    | cons t texts =>
      rw [List.map_cons, List.map_cons, List.intercalate_cons_cons, List.filter_append,
        List.filter_append, h, List.append_nil, ← List.map_cons, ih]
      rfl

theorem withoutBlanks_intercalate {separator : String}
    (h : withoutBlanks separator.toList = []) (texts : List String) :
    withoutBlanks (separator.intercalate texts).toList =
      texts.flatMap fun s => withoutBlanks s.toList := filter_intercalate h texts

/-! ## Tokens -/

theorem Peg.front_append (w t : List Char) : front (w ++ t) t = String.ofList w := by
  rw [front, List.length_append, Nat.add_sub_cancel, List.take_left]

/-- A token takes the front of a text. -/
theorem leavesEnd_takesOf (routines : List Routine) (name : String) :
    (takesOf routines name).LeavesEnd := by
  rw [takesOf]
  split
  · exact Plan.leavesEnd_takes _
  · exact fun _ _ h => by cases h

/-- A token of fixed text takes this text. -/
theorem Model.IsNamed.takesOf_literal {m : Model} {startRule : String}
    (h : m.IsNamed startRule) (hv : m.IsValid) {name text : String}
    (hliteral : m.literalOf? name = some text) {s t : List Char}
    (htake : takesOf (m.routines startRule) name s = .read t) : s = text.toList ++ t := by
  rw [literalOf?] at hliteral
  split at hliteral
  · rename_i text' hnode
    cases hliteral
    obtain ⟨n, hn, hb⟩ := Option.map_eq_some_iff.1 hnode
    obtain ⟨p, hp, -, htext⟩ := h.routineNamed?_token hv hn hb
    rw [takesOf, hp, htext text rfl] at htake
    exact Taking.text_eq_read.1 htake
  · cases hliteral

/-! ## Nodes -/

/-- Elements without a property refer to tokens of fixed text. -/
def Model.PrintsAll (m : Model) : Prop :=
  ∀ {name n elements}, m.node? name = some n → n.body = .deduction elements →
    ∀ e ∈ elements, e.property = none → (m.literalOf? e.target).isSome = true

/-- Whether the elements without a property of a node refer to tokens of fixed text. -/
def Model.printsBody (m : Model) : Body → Bool
  | .deduction elements =>
    elements.all fun e => e.property.isSome || (m.literalOf? e.target).isSome
  | _ => true

theorem Model.printsAll_of_all {m : Model}
    (h : (m.nodes.entries.all fun e => m.printsBody e.2.body) = true) : m.PrintsAll := by
  intro name n elements hn hb e he hproperty
  have hbody := List.all_eq_true.1 h _ (node?_eq_some_iff.1 hn)
  simp only [hb, printsBody] at hbody
  simpa [hproperty] using List.all_eq_true.1 hbody e he

/-- **The value `v` of the node `name` is printed as the text `w`**, but for blanks, and a token of
fixed text has taken this text. -/
structure Model.Reprints (m : Model) (separator name : String) (v : Json) (w : List Char) :
    Prop where
  printed : ∀ s, m.stringify separator v = .ok s → withoutBlanks s.toList = withoutBlanks w
  literal : ∀ text, m.literalOf? name = some text → w = text.toList

/-- What an element prints, where the deduction holds the value `v` in its place. -/
def Model.Prints (m : Model) (separator : String) (e : Element) (v : Json)
    (texts : List String) : Prop :=
  match e.property with
  | none => texts = m.fixedText e.target
  | some _ => ∃ s, m.stringify separator v = .ok s ∧ texts = [s]

section

variable {m : Model} {separator : String} {shapes : Table Shape} {input : List Char}

theorem Model.withoutBlanks_of_prints {e : Element} {v : Json} {texts : List String}
    {w : List Char} (h : m.Prints separator e v texts) (hw : m.Reprints separator e.target v w)
    (he : e.property = none → (m.literalOf? e.target).isSome = true) :
    (texts.flatMap fun s => withoutBlanks s.toList) = withoutBlanks w := by
  rw [Prints] at h
  cases hp : e.property with
  | none =>
    rw [hp] at h
    obtain ⟨text, htext⟩ := Option.isSome_iff_exists.1 (he hp)
    rw [h, fixedText, htext, hw.literal text htext]
    by_cases hempty : text = ""
    · simp [hempty]
    · simp [hempty]
  | some property =>
    rw [hp] at h
    obtain ⟨s, hs, rfl⟩ := h
    rw [List.flatMap_singleton, hw.printed s hs]

/-- A row prints what it was read from. -/
theorem Model.withoutBlanks_of_rowOf {elements : List Element} {trees : List Tree}
    {s t : List Char}
    (h : RowOf (fun x tree s t => ∃ v, valueOf shapes input tree = .ok v ∧
      ∃ w, s = w ++ t ∧ m.Reprints separator x v w) (elements.map Element.target) trees s t)
    (he : ∀ e ∈ elements, e.property = none → (m.literalOf? e.target).isSome = true) :
    ∃ values, List.Forall₂ (fun tree v => valueOf shapes input tree = .ok v) trees values ∧
      elements.length = values.length ∧ ∃ w, s = w ++ t ∧ ∀ texts,
        List.Forall₂ (fun x ts => m.Prints separator x.1 x.2 ts) (elements.zip values) texts →
        (texts.flatten.flatMap fun s => withoutBlanks s.toList) = withoutBlanks w := by
  generalize hnames : elements.map Element.target = names at h
  induction h generalizing elements with
  | nil s =>
    obtain rfl := List.map_eq_nil_iff.1 hnames
    refine ⟨[], .nil, rfl, [], rfl, fun texts htexts => ?_⟩
    cases htexts
    rfl
  | last hread =>
    obtain ⟨e, rfl, rfl⟩ := List.map_eq_singleton_iff.1 hnames
    obtain ⟨v, hv, w, rfl, hw⟩ := hread
    refine ⟨[v], .cons hv .nil, rfl, w, rfl, fun texts htexts => ?_⟩
    cases htexts with
    | cons hprints hrest =>
      cases hrest
      rw [List.flatten_singleton]
      exact withoutBlanks_of_prints hprints hw (he e List.mem_cons_self)
  | cons hread _ ih =>
    obtain ⟨e, elements, rfl, rfl, hrest⟩ := List.map_eq_cons_iff.1 hnames
    obtain ⟨v, hv, w, rfl, hw⟩ := hread
    obtain ⟨values, hvalues, hlength, w', hw', hprinted⟩ :=
      ih (fun e he' => he e (List.mem_cons_of_mem _ he')) hrest
    obtain ⟨blanks, hblanks, hnone⟩ := exists_dropBlanks _
    refine ⟨v :: values, .cons hv hvalues, congrArg Nat.succ hlength, w ++ (blanks ++ w'), ?_,
      fun texts htexts => ?_⟩
    · rw [List.append_assoc, List.append_assoc, ← hw', ← hblanks]
    · cases htexts with
      | cons hprints hrest =>
        rw [List.flatten_cons, List.flatMap_append, hprinted _ hrest,
          withoutBlanks_of_prints hprints hw (he e List.mem_cons_self)]
        simp [hnone]

/-- What a deduction prints is what its elements print. -/
theorem Model.prints_of_elementTexts {type : String} {value : Json} {elements : List Element}
    {values : List Json} {texts : List (List String)}
    (h : List.Forall₂ (fun e ts => m.elementTexts separator type value e = .ok ts) elements texts)
    (hlength : elements.length = values.length)
    (hmember : ∀ x ∈ elements.zip values, ∀ property, x.1.property = some property →
      value.member? property = some x.2) :
    List.Forall₂ (fun x ts => m.Prints separator x.1 x.2 ts) (elements.zip values) texts := by
  induction h generalizing values with
  | nil => exact .nil
  | @cons e ts elements texts hts _ ih =>
    cases values with
    | nil => cases hlength
    | cons v values =>
      refine .cons ?_ (ih (Nat.succ.inj hlength) fun x hx => hmember x (List.mem_cons_of_mem _ hx))
      rw [elementTexts] at hts
      rw [Prints]
      cases hp : e.property with
      | none =>
        rw [hp] at hts
        cases hts
        rfl
      | some property =>
        have hfield := hmember (e, v) List.mem_cons_self property hp
        rw [hp] at hts
        simp only at hfield
        simp only [hfield] at hts
        obtain ⟨_, -, hts⟩ := bind_ok hts
        obtain ⟨s, hs, hts⟩ := bind_ok hts
        cases hts
        exact ⟨s, hs, rfl⟩

theorem mem_fieldsOf_of_mem_zip {elements : List Element} {values : List Json}
    {x : Element × Json} (hx : x ∈ elements.zip values) {property : String}
    (hp : x.1.property = some property) : (property, x.2) ∈ fieldsOf elements values := by
  fun_induction fieldsOf elements values with
  | case1 e elements v values property' hp' ih =>
    rcases List.mem_cons.1 hx with rfl | hx
    · rw [hp] at hp'
      cases hp'
      exact List.mem_cons_self
    · exact List.mem_cons_of_mem _ (ih hx)
  | case2 e elements v values hp' ih =>
    rcases List.mem_cons.1 hx with rfl | hx
    · rw [hp] at hp'
      cases hp'
    · exact ih hx
  | case3 elements values hne =>
    cases elements with
    | nil => cases hx
    | cons e elements =>
      cases values with
      | nil => cases hx
      | cons v values => exact absurd rfl (hne e elements v values rfl)

end

/-- The members of a deduction's value are those of its elements. -/
theorem Model.IsValid.member?_fieldsOf {m : Model} (hv : m.IsValid) {name : String} {n : Node}
    {elements : List Element} (hn : m.node? name = some n) (hb : n.body = .deduction elements)
    {values : List Json} (hlength : elements.length = values.length) {x : Element × Json}
    (hx : x ∈ elements.zip values) {property : String} (hp : x.1.property = some property) :
    Json.member? property (.object (("type", .string name) :: fieldsOf elements values)) =
      some x.2 := by
  have hnodup : ((("type", Json.string name) :: fieldsOf elements values).map Prod.fst).Nodup := by
    rw [List.map_cons, map_fst_fieldsOf hlength, List.nodup_cons]
    exact ⟨fun hmem => (hv.properties hn hb _ hmem).1 rfl, hv.distinct hn hb⟩
  exact (Entries.find?_eq_some_iff hnodup).2
    (List.mem_cons_of_mem _ (mem_fieldsOf_of_mem_zip hx hp))

/-- **Every tree that a node reads is printed as its text**, but for blanks. -/
theorem Model.IsNamed.reprints_of_readNode {m : Model} {startRule : String}
    (h : m.IsNamed startRule) (hv : m.IsValid) (hall : m.PrintsAll) {separator : String}
    (hsep : withoutBlanks separator.toList = []) {depth : Nat} {name : String} {s t : List Char}
    {tree : Tree}
    (hread : m.readNode (takesOf (m.routines startRule)) depth name s = .read (tree, t))
    (input : List Char) :
    ∃ v, valueOf (.ofList m.shapes) input tree = .ok v ∧
      ∃ w, s = w ++ t ∧ m.Reprints separator name v w := by
  refine readNode_induct (P := fun name tree s t =>
    ∃ v, valueOf (.ofList m.shapes) input tree = .ok v ∧
      ∃ w, s = w ++ t ∧ m.Reprints separator name v w) ?_ ?_ ?_ hread
  · intro name n pattern s t hn hb htake
    obtain ⟨w, rfl⟩ := leavesEnd_takesOf _ _ _ _ htake
    refine ⟨_, h.valueOf_token hn hb .., w, rfl, fun str hstr => ?_, fun text htext => ?_⟩
    · rw [front_append, stringify_token rfl hn hb rfl] at hstr
      cases hstr
      rw [String.toList_ofList]
    · exact List.append_cancel_right (h.takesOf_literal hv htext htake)
  · intro name n elements trees s t hn hb hrow
    obtain ⟨values, hvalues, hlength, w, hw, hprinted⟩ :=
      withoutBlanks_of_rowOf hrow (hall hn hb)
    refine ⟨_, h.valueOf_deduction hn hv hb hvalues hlength .., w, hw, fun str hstr => ?_,
      fun text htext => ?_⟩
    · rw [stringify_deduction rfl hn hb] at hstr
      obtain ⟨texts, htexts, hstr⟩ := bind_ok hstr
      cases hstr
      rw [withoutBlanks_intercalate hsep]
      exact hprinted texts (prints_of_elementTexts (mapM_eq_ok_iff.1 htexts) hlength
        fun x hx property hp => hv.member?_fieldsOf hn hb hlength hx hp)
    · simp [literalOf?, hn, hb] at htext
  · rintro name n members x tree s t hn hb hx ⟨v, hvalue, w, hw, hreprints⟩
    refine ⟨v, hvalue, w, hw, hreprints.printed, fun text htext => ?_⟩
    simp [literalOf?, hn, hb] at htext

/-! ## Whole texts -/

/-- **Reading and printing keep a text**, but for blanks. -/
theorem withoutBlanks_stringify_parse {m : Model} {c : GrammarConfig} {g : Grammar}
    {warnings : List String} {serial : Nat} {p : CompiledParser} (hname : '\n' ∉ m.name.toList)
    (hversion : '\n' ∉ m.version.toList) (hg : generateGrammar m c = .done g warnings)
    (hp : g.source.compile serial = .ok p) (hall : m.PrintsAll) {text : String} {v : Json}
    (hparse : p.parse text = .value v) (o : StringifyOptions) :
    ∃ s, m.stringify o.separator v = .ok s ∧
      withoutBlanks s.toList = withoutBlanks text.toList := by
  obtain ⟨hv, hnamed, -⟩ := generateGrammar_eq_done hg
  obtain ⟨depth, tree, t, hread, hend, hvalue⟩ := readNode_of_value hname hversion hg hp hparse
  obtain ⟨v', hvalue', hconforms⟩ := hnamed.valueOf_of_readNode hv hread text.toList
  obtain rfl : v = v' := Except.ok.inj (hvalue.symm.trans hvalue')
  obtain ⟨s, hs⟩ := hconforms.stringify hv o.separator
  obtain ⟨v', hvalue', w, hw, hreprints⟩ :=
    hnamed.reprints_of_readNode hv hall (withoutBlanks_separator o) hread text.toList
  obtain rfl : v = v' := Except.ok.inj (hvalue.symm.trans hvalue')
  refine ⟨s, hs, ?_⟩
  calc withoutBlanks s.toList = withoutBlanks w := hreprints.printed s hs
    _ = withoutBlanks (w ++ t) := by rw [withoutBlanks_append, ← withoutBlanks_dropBlanks t, hend]; simp
    _ = withoutBlanks text.toList := by rw [← hw, withoutBlanks_dropBlanks]

/-- Pairs with blanks in odd places are printed without them. -/
theorem withoutBlanks_stringify_pairs : ∃ g warnings v s,
    generateGrammar .pairs {} = .done g warnings ∧
    g.source.compile 0 = .ok (Model.pairs.parser {} 0) ∧ Model.pairs.PrintsAll ∧
    (Model.pairs.parser {} 0).parse " a, b ,cd" = .value v ∧
    Model.pairs.stringify " " v = .ok s ∧
      withoutBlanks s.toList = withoutBlanks " a, b ,cd".toList := by
  obtain ⟨g, hg, hp⟩ := Model.isAccepted_pairs.exists_compiled 0
  have hall : Model.pairs.PrintsAll := Model.printsAll_of_all (by decide +kernel)
  have hvalue : ((Model.pairs.parser {} 0).parse " a, b ,cd").value?.isSome = true := by
    decide +kernel
  obtain ⟨v, hparse⟩ := ParseResult.exists_eq_value hvalue
  obtain ⟨s, hs, hblanks⟩ := withoutBlanks_stringify_parse (by decide) (by decide) hg hp hall
    hparse {}
  exact ⟨g, _, v, s, hg, hp, hall, hparse, hs, hblanks⟩

end GrammarKit
