import GrammarKit.Proofs.Grammar.Text
import GrammarKit.Proofs.Peg.Trivia

/-!
# Start rules with blanks and comments around their names

The name of a start rule is checked as code and written into the grammar text as it was given.
Blanks and comments may stand around it, and its letters need not be those of grammar texts. Such
a text is either refused or read as the rules of the model, with the bare name for the start rule.

* `exists_name`: what a grammar text reads of a word of code.
* `ReadsOrRefuses`: texts that go the same way.
* `readsRest_rule`, `readsRest_join`: rules are read, or the texts are refused.
* **`Model.readGrammar_textOf`**: texts of the same rules are read alike.
* **`Model.exists_writes_of_readGrammar`**: what is read of the text of a grammar.
-/

namespace GrammarKit

open Peg Reader

/-! ## Words of code as names -/

namespace Peg

theorem isNamePart_of_continuesName {c : Char} (h : continuesName c = true) :
    Text.isNamePart c = true := by
  rw [continuesName, Bool.or_comm] at h
  exact Text.isNamePart_of_isIdentifierPart h

/-- Letters of words of code are no blanks of grammar texts and no signs. -/
theorem solid_of_letter {c : Char} (h : Text.isNameStart c = true ∨ Text.isNamePart c = true) :
    startsGap c = false ∧ c ≠ '=' := by
  have hne {d : Char} (hlow : d.toNat < 128) (hd : Text.member
      (Text.low Text.patternSyntax ++ Text.low Text.patternWhiteSpace) d.toNat = true) : c ≠ d := by
    rintro rfl
    obtain ⟨hstart, hpart⟩ := Text.notName_of_pattern hlow hd
    rw [hstart, hpart] at h
    exact h.elim Bool.false_ne_true Bool.false_ne_true
  rw [Text.LowTables.patternSyntax Text.lowTables,
    Text.LowTables.patternWhiteSpace Text.lowTables] at hne
  simp only [startsGap, Bool.or_eq_false_iff, beq_eq_false_iff_ne]
  exact ⟨⟨⟨⟨⟨hne (by decide) (by decide), hne (by decide) (by decide)⟩,
    hne (by decide) (by decide)⟩, hne (by decide) (by decide)⟩, hne (by decide) (by decide)⟩,
    hne (by decide) (by decide)⟩

/-- What is dropped for a stricter test goes on with a word, or nothing more is dropped. -/
theorem dropWhile_eq_or {p q : Char → Bool} (h : ∀ c, p c = true → q c = true) (t : List Char) :
    t.dropWhile p = t.dropWhile q ∨ ∃ d u, t.dropWhile p = d :: u ∧ q d = true := by
  induction t with
  | nil => exact .inl rfl
  | cons d t ih =>
    rw [List.dropWhile_cons, List.dropWhile_cons]
    by_cases hd : p d = true
    · rw [if_pos hd, if_pos (h d hd)]
      exact ih
    · rw [if_neg hd]
      by_cases hpart : q d = true
      · exact .inr ⟨d, t, rfl, hpart⟩
      · rw [if_neg hpart]
        exact .inl rfl

theorem endsName_dropWhile (t : List Char) : EndsName (t.dropWhile continuesName) := by
  intro d hd
  have := List.head?_dropWhile_not continuesName t
  rw [Option.mem_def.1 hd] at this
  exact this

/-- **What a grammar text reads of a word of code**: a name, unless it starts with a letter of its
own. The name is the whole word, or no blank and no assignment follows. -/
theorem exists_name {word behind : List Char} (h : Code.afterAnyIdent? word = some behind) :
    (∃ c t, word = c :: t ∧ startsName c = false ∧ startsGap c = false) ∨
      ∃ name rest, IsPlainName name ∧ word = name.toList ++ rest ∧ EndsName rest ∧
        (rest = behind ∨ ∃ d t, rest = d :: t ∧ startsGap d = false ∧ d ≠ '=') := by
  rw [Code.afterAnyIdent?.eq_def] at h
  split at h
  -- the mark of a raw word ends the name
  · exact .inr ⟨"r", _, ⟨'r', [], rfl, rfl, List.forall_mem_nil _⟩, rfl, endsName_cons (by decide),
      .inr ⟨'#', _, rfl, by decide, by decide⟩⟩
  · cases word with
    | nil => cases h
    | cons c t =>
      rw [Code.afterIdent?] at h
      split at h
      · rename_i hstart
        by_cases hc : startsName c = true
        · refine .inr ⟨String.ofList (c :: t.takeWhile continuesName), t.dropWhile continuesName,
            ⟨c, _, String.toList_ofList, hc, List.all_eq_true.1 List.all_takeWhile⟩, ?_,
            endsName_dropWhile t, ?_⟩
          · rw [String.toList_ofList, List.cons_append, List.takeWhile_append_dropWhile]
          · rcases dropWhile_eq_or (fun _ => isNamePart_of_continuesName) t with
              hdrop | ⟨d, u, hdrop, hd⟩
            · exact .inl (hdrop.trans (Option.some.inj h))
            · exact .inr ⟨d, u, hdrop, solid_of_letter (.inr hd)⟩
        · rw [Code.startsIdent, Bool.or_eq_true] at hstart
          refine .inl ⟨c, t, rfl, by simpa using hc, (solid_of_letter (.inl ?_)).1⟩
          refine hstart.resolve_left fun hunderscore => hc ?_
          rw [startsName, hunderscore, Bool.true_or]
      · cases h

/-! ## Rules one after the other -/

section Texts

-- Texts that differ in their gaps are followed side by side, one for each index, so that all of
-- them are seen to go the same way.
variable {ι : Type} {r : Rule} {rules : List Rule} {depth : ι → Nat} {s t k : ι → List Char}

/-- The remainders of some texts are all read as these rules, or they are all refused. -/
def ReadsOrRefuses (depth : ι → Nat) (s : ι → List Char) (rules : List Rule) : Prop :=
  (∀ i, ReadsRest (depth i) (s i) (Step.Holds rules)) ∨
    ∀ i, ReadsRest (depth i) (s i) Step.IsRefused

theorem ReadsOrRefuses.of_gap (h : ∀ i, dropGap (s i) = dropGap (t i))
    (ht : ReadsOrRefuses depth t rules) : ReadsOrRefuses depth s rules :=
  ht.imp (fun hO i => .of_gap (h i) (hO i)) fun hO i => .of_gap (h i) (hO i)

/-- A simple rule is read, or the texts are refused. -/
theorem readsRest_rule (h : r.IsSimple)
    (hs : ∀ i, OpensRule (s i) r.kind (r.body.render.toList ++ ' ' :: '\x7d' :: k i))
    (hdepth : ∀ i, r.body.render.toList.length ≤ depth i)
    (ht : ∀ i, dropGap (t i) = r.name.toList ++ s i)
    (hk : ReadsOrRefuses (fun i => depth i + 1) k rules) :
    ReadsOrRefuses (fun i => depth i + 1) t (r :: rules) := by
  cases hc : r.isClean with
  | false =>
    refine .inr fun i => .refused (ht i ▸ h.refuses (hs i) hc) ?_
    obtain ⟨c, n, hn, -⟩ := h.name
    rw [ht i, hn]
    exact List.cons_ne_nil _ _
  | true =>
    have hfinds (i : ι) := h.finds (hs i) hc (Nat.le_succ_of_le (hdepth i))
    have hlength (i : ι) : (k i).length < (dropGap (t i)).length := by
      have := length_dropGap (s i)
      rw [(hs i).behindGap] at this
      rw [ht i]
      simp only [List.length_append, List.length_cons] at this ⊢
      omega
    refine hk.imp (fun hO i => .of_rule ?_ (hlength i) (hO i)) fun hO i =>
      .refused_of_rule (P := fun x => ∃ d, x = some d ∧ d.Writes r) ?_ (hlength i) (hO i)
    all_goals
      rw [ht i]
      exact hfinds i

/-- A rule with what stands in front of it in each of the texts. -/
structure Row (ι : Type) where
  lead : ι → List Char
  rule : Rule

/-- The rule is simple, and a gap on lines of its own stands in front of it. -/
structure Row.IsSimple (q : Row ι) : Prop where
  rule : q.rule.IsSimple
  gap : ∀ i s, dropGap (q.lead i ++ s) = dropGap s
  feed : ∀ i, ∃ t, q.lead i = '\n' :: t

/-- The paragraph of a rule in one of the texts. -/
def Row.paragraph (i : ι) (q : Row ι) : Paragraph := ⟨q.lead i, q.rule.text, q.rule⟩

/-- The rules in one of the texts, up to its end. -/
def rowsText (rows : List (Row ι)) (i : ι) : List Char :=
  Paragraph.join (rows.map (Row.paragraph i)) ++ ['\n']

theorem rowsText_cons (q : Row ι) (rows : List (Row ι)) (i : ι) :
    rowsText (q :: rows) i = q.lead i ++ (q.rule.text ++ rowsText rows i) := by
  simp [rowsText, Row.paragraph, Paragraph.join]

section Rows

variable {rows : List (Row ι)} (h : ∀ q ∈ rows, q.IsSimple)

include h

/-- Rows of simple rules are read, or the texts are refused. -/
theorem readsRest_join (hdepth : ∀ i, ∀ q ∈ rows, q.rule.text.length ≤ depth i) :
    ReadsOrRefuses (fun i => depth i + 1) (rowsText rows) (rows.map Row.rule) := by
  induction rows with
  | nil => exact .inl fun _ => .of_end rfl
  | cons q rows ih =>
    obtain ⟨hq, hrows⟩ := List.forall_mem_cons.1 h
    have hbody (i : ι) : q.rule.body.render.toList.length ≤ depth i := by
      have hlength := hdepth i q List.mem_cons_self
      rw [Rule.text, List.length_append, List.length_append] at hlength
      omega
    refine readsRest_rule hq.rule (fun i => opensRule_ruleHead q.rule.kind _) hbody (fun i => ?_)
      (ih hrows fun i q' hq' => hdepth i q' (List.mem_cons_of_mem _ hq'))
    rw [rowsText_cons, (hq.rule.isApart (hq.gap i)).behindGap, Rule.text_append]

/-- Rows of simple rules start with no sign of assignment. -/
theorem dropGap_rowsText_ne (i : ι) (t : List Char) : dropGap (rowsText rows i) ≠ '=' :: t := by
  cases rows with
  | nil => exact fun h => by cases h
  | cons q rows =>
    have hq := h q List.mem_cons_self
    have hapart := hq.rule.isApart (hq.gap i)
    obtain ⟨c, s, hs, hc⟩ := hapart.head
    rw [rowsText_cons, hapart.behindGap, show q.rule.text = c :: s from hs]
    intro heq
    rw [(List.cons.inj heq).1] at hc
    cases hc

/-- Rows of simple rules start with a line feed. -/
theorem exists_rowsText_eq (i : ι) : ∃ back, rowsText rows i = '\n' :: back := by
  cases rows with
  | nil => exact ⟨[], rfl⟩
  | cons q rows =>
    obtain ⟨t, ht⟩ := (h q List.mem_cons_self).feed i
    rw [rowsText_cons, ht]
    exact ⟨_, rfl⟩

end Rows

end Texts

end Peg

/-! ## The start rule -/

namespace Model

variable {m : Model} {c : GrammarConfig}

/-- The body of the start rule. -/
def startBody (start : String) : Expr := .sequence (["SOI", start, "EOI"].map .ref)

/-- What stands behind the name of the start rule. -/
def startTail (m : Model) (k : List Char) : List Char :=
  " = \x7b ".toList ++ ((startBody m.start).render.toList ++ ' ' :: '\x7d' :: k)

theorem startTail_eq (k : List Char) : m.startTail k =
    " = \x7b ".toList ++ ((startBody m.start).render.toList ++ ' ' :: '\x7d' :: k) := rfl

theorem text_startPegRule_append (startRule : String) (k : List Char) :
    (startPegRule startRule m.start).text ++ k = startRule.toList ++ m.startTail k :=
  Rule.text_append k

theorem isTail_startTail (k : List Char) : IsTail (m.startTail k) := by
  rintro c ⟨⟩
  decide

/-- The start rule ends in its line. -/
theorem endsItsLine_startTail (hv : m.IsValid) {back : List Char}
    (hback : ∀ t, dropGap back ≠ '=' :: t) : EndsItsLine (m.startTail ('\n' :: back)) := by
  have hsplit : m.startTail ('\n' :: back) = " = \x7b ".toList ++
      ((startBody m.start).render.toList ++ [' ', '\x7d']) ++ '\n' :: back := by
    rw [startTail_eq]
    simp only [List.append_assoc, List.cons_append, List.nil_append]
  refine ⟨_, back, hsplit, ?_, hback⟩
  have hstart : '\n' ∉ m.start.toList := fun h =>
    absurd ((hv.isPlainName hv.start).continues _ h) (by decide)
  have hbody : (startBody m.start).render.toList =
      "SOI".toList ++ itemsText (rowItems false [m.start, "EOI"]) := by
    rw [startBody, List.map_cons, ← List.map_cons, Expr.sequence_refs, Expr.render_row]
  rw [hbody]
  simp [rowItems, itemsText, signOf, hstart]

section Start

variable {ι : Type} {rules : List Rule} {depth : ι → Nat} {k : ι → List Char}
  (hv : m.IsValid) (hk : ∀ i, ∃ back, k i = '\n' :: back) (hgap : ∀ i t, dropGap (k i) ≠ '=' :: t)
  (hdepth : ∀ i, (startBody m.start).render.toList.length ≤ depth i)
  (hrules : ReadsOrRefuses (fun i => depth i + 1) k rules)

include hv hk hgap hdepth hrules

/-- A word of code as the name of the start rule. -/
theorem readsOrRefuses_word {word behind : List Char}
    (hword : Code.afterAnyIdent? word = some behind)
    (hbehind : Code.skipTrivia behind.length behind = []) :
    ∃ name, ReadsOrRefuses (fun i => depth i + 1) (fun i => word ++ m.startTail (k i))
      (startPegRule name m.start :: rules) := by
  have hrefused {depth : Nat} {c : Char} {t : List Char} (hs : startsGap c = false)
      (hd : (definition depth).Refuses (c :: t)) : ReadsRest depth (c :: t) Step.IsRefused :=
    .refused (by rwa [dropGap_solid hs]) (by rw [dropGap_solid hs]; exact List.cons_ne_nil _ _)
  have hline (i : ι) : EndsItsLine (m.startTail (k i)) := by
    obtain ⟨back, hback⟩ := hk i
    have hgap' := hgap i
    rw [hback, dropGap_feed] at hgap'
    rw [hback]
    exact endsItsLine_startTail hv hgap'
  rcases exists_name hword with ⟨c, t, rfl, hc, hsolid⟩ | ⟨name, rest, hname, rfl, hends, hrest⟩
  · refine ⟨"", .inr fun i =>
      hrefused hsolid (refuses_definition_head (name?_of_not_starts hc _) ?_)⟩
    rintro rfl
    cases hsolid
  · have hends' (i : ι) : EndsName (rest ++ m.startTail (k i)) := by
      cases rest with
      | nil => exact endsName_cons (by decide)
      | cons d t => exact endsName_cons (hends d rfl)
    obtain ⟨c, t, ht, hc, -⟩ := id hname
    have hsolid := startsGap_of_continuesName (continuesName_of_startsName hc)
    refine ⟨name, ?_⟩
    have hrefused' (hd : ∀ i, (definition (depth i + 1)).Refuses
        (name.toList ++ (rest ++ m.startTail (k i)))) :
        ReadsOrRefuses (fun i => depth i + 1) (fun i => name.toList ++ rest ++ m.startTail (k i))
          (startPegRule name m.start :: rules) := by
      refine .inr fun i => ?_
      have hdi := hd i
      show ReadsRest (depth i + 1) (name.toList ++ rest ++ m.startTail (k i)) Step.IsRefused
      rw [List.append_assoc]
      rw [ht] at hdi ⊢
      exact hrefused hsolid hdi
    by_cases hpush : startsWithPush name.toList = true
    · exact hrefused' fun i => refuses_definition_name hname hpush (hends' i)
    have hrule : IsRuleName name := ⟨hname, Bool.eq_false_iff.2 hpush⟩
    rcases hrest with rfl | ⟨d, u, rfl, hd, hne⟩
    · rcases dropGap_back (Nat.le_refl _) hbehind with hdrop | hdrop
      · refine readsRest_rule (isSimple_startPegRule hv hname) (fun i => ⟨hends' i, ?_⟩) hdepth
          (fun i => ?_) hrules
        · exact (hdrop _ (isTail_startTail _) (hline i)).trans
            (opensRule_ruleHead .normal _).behindGap
        · show dropGap (name.toList ++ _ ++ _) = name.toList ++ _
          rw [List.append_assoc, ht]
          exact dropGap_solid hsolid _
      · exact hrefused' fun i => refuses_definition_gap hrule (hends' i)
          (hdrop _ (isTail_startTail _) (hline i))
    · refine hrefused' fun i => refuses_definition_gap hrule (hends' i) fun t h => hne ?_
      rw [List.cons_append, dropGap_solid hd] at h
      exact (List.cons.inj h).1

/-- **The start rule is read under its bare name**, or the texts are refused. -/
theorem readsOrRefuses_startRule {startRule : String}
    (hstart : Code.isIdentifier startRule = true) :
    ∃ name, ReadsOrRefuses (fun i => depth i + 1) (fun i => startRule.toList ++ m.startTail (k i))
      (startPegRule name m.start :: rules) := by
  obtain ⟨s, word, behind, hs, htext⟩ := Code.exists_surrounded hstart
  have hne : word ≠ [] := by
    rintro rfl
    cases hs.word
  have hs' : ∃ name, ReadsOrRefuses (fun i => depth i + 1) (fun i => s ++ m.startTail (k i))
      (startPegRule name m.start :: rules) := by
    rcases readsRest_front (Nat.le_refl _) hs.front hne with hO | hrefused
    · obtain ⟨name, hname⟩ := readsOrRefuses_word hv hk hgap hdepth hrules hs.word hs.back
      exact ⟨name, hname.imp (fun h i => hO _ (isTail_startTail _) _ _ (h i))
        fun h i => hO _ (isTail_startTail _) _ _ (h i)⟩
    · exact ⟨"", .inr fun i => hrefused _ (isTail_startTail _) _⟩
  rcases htext with rfl | ⟨c, hc, htext⟩
  · exact hs'
  -- the mark of byte order is no gap and starts no name
  · obtain rfl : c = '\uFEFF' := Char.ext (UInt32.toNat_inj.1 hc)
    refine ⟨"", .inr fun i => ?_⟩
    show ReadsRest (depth i + 1) (startRule.toList ++ m.startTail (k i)) Step.IsRefused
    rw [htext, List.cons_append]
    refine .refused ?_ ?_ <;> rw [dropGap_solid (by decide)]
    · exact refuses_definition_head (name?_of_not_starts (by decide) _) (by decide)
    · exact List.cons_ne_nil _ _

end Start

/-! ## Whole texts -/

/-- The text of a grammar with other paragraphs for the nodes. -/
def textOf (m : Model) (startRule : String) (s : List Char) : List Char :=
  m.blanksParagraph.lead ++ (m.blanksParagraph.text ++ '\n' :: '\n' ::
    (startRule.toList ++ m.startTail s))

/-- The rows of a grammar text. -/
theorem grammarText_eq_textOf {ι : Type} {rows : List (Row ι)} {i : ι}
    (h : (m.rules.map fun r => Paragraph.mk (r.lead c.includeComments) r.rule.text r.rule) =
      rows.map (Row.paragraph i)) :
    (grammarText m c m.rules).toList = m.textOf c.startRule (rowsText rows i) := by
  rw [grammarText_toList, paragraphs, h, textOf, rowsText, ← text_startPegRule_append]
  simp [Paragraph.join]

section Whole

variable {ι : Type} {m : ι → Model} {startRule start : String} {rows : List (Row ι)}
  (hv : ∀ i, (m i).IsValid) (hname : ∀ i, '\n' ∉ (m i).name.toList)
  (hversion : ∀ i, '\n' ∉ (m i).version.toList) (hstart : ∀ i, (m i).start = start)
  (hident : Code.isIdentifier startRule = true)
  (hrows : ∀ q ∈ rows, q.IsSimple)

include hv hname hversion hstart hident hrows

/-- **Texts of the same rules are read alike**: as these rules, with some name for the start rule,
or not at all. -/
theorem readGrammar_textOf [Nonempty ι] : ∃ name,
    (∀ i, ∃ ds, readGrammar ((m i).textOf startRule (rowsText rows i)) = .ok ds ∧
      List.Forall₂ Definition.Writes ds
        (blanksPegRule :: startPegRule name start :: rows.map Row.rule)) ∨
    ∀ i ds, readGrammar ((m i).textOf startRule (rowsText rows i)) ≠ .ok ds := by
  obtain ⟨j⟩ := ‹Nonempty ι›
  have htail (i : ι) (k : List Char) : (m i).startTail k = (m j).startTail k := by
    rw [startTail_eq, startTail_eq, hstart i, hstart j]
  obtain ⟨depth, hdepth⟩ : ∃ depth : ι → Nat, ∀ i,
      depth i = ((m i).textOf startRule (rowsText rows i)).length := ⟨_, fun _ => rfl⟩
  have hlength (i : ι) {l : List Char}
      (hl : l.length ≤ ((m i).startTail (rowsText rows i)).length) : l.length ≤ depth i := by
    rw [hdepth, textOf]
    simp only [List.length_append, List.length_cons]
    omega
  have hrules : ReadsOrRefuses (fun i => depth i + 1) (rowsText rows) (rows.map Row.rule) := by
    refine readsRest_join hrows fun i q hq => hlength i ?_
    have hjoin := length_le_join (List.mem_map_of_mem (f := Row.paragraph i) hq)
    simp only [Row.paragraph] at hjoin
    simp only [startTail_eq, rowsText, List.length_append, List.length_cons]
    omega
  obtain ⟨name, hrest⟩ := readsOrRefuses_startRule (hv j) (exists_rowsText_eq hrows)
    (dropGap_rowsText_ne hrows) (fun i => hlength i (by
      rw [htail, startTail_eq]
      simp only [List.length_append]
      omega)) hrules hident
  refine ⟨name, ?_⟩
  have hgap (i : ι) : dropGap ('\n' :: '\n' ::
      (startRule.toList ++ (m i).startTail (rowsText rows i))) =
        dropGap (startRule.toList ++ (m j).startTail (rowsText rows i)) := by
    rw [dropGap_feed, dropGap_feed, htail]
  have hblanks (i : ι) : (m i).blanksParagraph.Reads (depth i + 1) :=
    reads_blanksText (depth i) (m i).blanksParagraph.lead
  rcases hrest.of_gap hgap with hO | hO
  · refine .inl fun i => ?_
    have hread : ReadsRest (depth i + 1) _ _ := hO i
    have hblanksi := hblanks i
    rw [hdepth] at hread hblanksi
    rw [← hstart j]
    exact readGrammar_eq_ok (isApart_blanksParagraph (hname i) (hversion i)) hblanksi hread
  · refine .inr fun i => ?_
    have hread : ReadsRest (depth i + 1) _ _ := hO i
    have hblanksi := hblanks i
    rw [hdepth] at hread hblanksi
    exact readGrammar_ne_ok (isApart_blanksParagraph (hname i) (hversion i)) hblanksi hread

end Whole

/-- The rules of a model are simple, and comments on nodes are gaps in front of them. -/
theorem isSimple_rows {ι : Type} {rows : List (Row ι)} (hv : m.IsValid)
    (hrule : rows.map Row.rule = m.rules.map NodeRule.rule)
    (hlead : ∀ q ∈ rows, ∀ i, ∃ (r : NodeRule) (includeComments : Bool),
      q.lead i = r.lead includeComments) : ∀ q ∈ rows, q.IsSimple := by
  intro q hq
  have hmem : q.rule ∈ m.rules.map NodeRule.rule := hrule ▸ List.mem_map_of_mem hq
  obtain ⟨r, hr, he⟩ := List.mem_map.1 hmem
  obtain ⟨name, n, hn, hr⟩ := mem_rules.1 hr
  refine ⟨he ▸ hv.isSimple hn hr, fun i s => ?_, fun i => ?_⟩
  all_goals obtain ⟨r, includeComments, hr⟩ := hlead q hq i
  · rw [hr]
    exact dropGap_lead r includeComments s
  · exact ⟨_, hr⟩

/-- **What is read of the text of a grammar**: the rules of the model, with some name for the start
rule. -/
theorem exists_writes_of_readGrammar (hv : m.IsValid) (hname : '\n' ∉ m.name.toList)
    (hversion : '\n' ∉ m.version.toList) (hstart : Code.isIdentifier c.startRule = true)
    {ds : List Definition} (h : readGrammar (grammarText m c m.rules).toList = .ok ds) :
    ∃ startRule, List.Forall₂ Definition.Writes ds (m.pegRules startRule) := by
  obtain ⟨rows, hrows⟩ : ∃ rows : List (Row Unit), rows =
    m.rules.map fun r => ⟨fun _ => r.lead c.includeComments, r.rule⟩ := ⟨_, rfl⟩
  have hrule : rows.map Row.rule = m.rules.map NodeRule.rule := by
    rw [hrows, List.map_map]
    rfl
  have hsimple : ∀ q ∈ rows, q.IsSimple := by
    refine isSimple_rows hv hrule fun q hq _ => ?_
    rw [hrows] at hq
    obtain ⟨r, -, rfl⟩ := List.mem_map.1 hq
    exact ⟨r, _, rfl⟩
  have htext : (grammarText m c m.rules).toList = m.textOf c.startRule (rowsText rows ()) := by
    refine grammarText_eq_textOf ?_
    rw [hrows, List.map_map]
    rfl
  rw [htext] at h
  obtain ⟨name, hread | hrefused⟩ := readGrammar_textOf (m := fun _ => m)
    (fun _ => hv) (fun _ => hname) (fun _ => hversion) (fun _ => rfl) hstart hsimple
  · obtain ⟨ds', hds', hwrites⟩ := hread ()
    rw [hds'] at h
    cases h
    exact ⟨name, by rwa [hrule] at hwrites⟩
  · exact absurd h (hrefused () ds)

end Model

end GrammarKit
