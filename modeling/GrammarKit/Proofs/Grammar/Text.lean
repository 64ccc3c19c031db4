import GrammarKit.Grammar.Generator
import GrammarKit.Proofs.Model.Valid
import GrammarKit.Proofs.Peg.Definitions
import GrammarKit.Proofs.Regex.Lexical

/-!
# The text of a grammar, read again

The text of a generated grammar is read as the rules that it was made from: the rule for blanks,
the start rule and one rule per node. Comments and the free text in them have no effect.

* `NodeRule.rule`, `Model.pegRules`: the rules of a model without comments.
* `Expr.names`, `Rule.isClean`: names that can be written, but not read.
* **`readGrammar_grammarText`**: a text of clean rules is read as these rules.
* **`isClean_of_readGrammar`**: a text with any other rule cannot be read.
-/

namespace GrammarKit

open Peg Reader

/-! ## Rules without comments -/

/-- The rule of a node without its comment. -/
def NodeRule.rule (r : NodeRule) : Rule := ⟨r.name, r.shape.ruleKind, r.body⟩

/-- The rule for blanks. -/
def blanksPegRule : Rule :=
  ⟨"WHITESPACE", .silent, .firstOf [.text " ", .text "\t", .text "\r", .text "\n"]⟩

/-- The start rule. -/
def startPegRule (startRule start : String) : Rule :=
  ⟨startRule, .normal, .sequence (["SOI", start, "EOI"].map .ref)⟩

/-- **The rules of a model.** -/
def Model.pegRules (m : Model) (startRule : String) : List Rule :=
  blanksPegRule :: startPegRule startRule m.start :: m.rules.map NodeRule.rule

/-! ## Rows of names -/

namespace Peg.Expr

/-- The names that an expression uses. -/
def names : Expr → List String
  | ref name => [name]
  | text _ | anyCase _ | range .. | peek .. => []
  | push body | ahead body | notAhead body | repeated body _ => body.names
  | seq left right | choice left right => left.names ++ right.names

theorem Readable.names {e : Expr} (h : e.Readable) : ∀ n ∈ e.names, IsRuleName n := by
  induction e with
  | ref name => exact fun n hn => List.mem_singleton.1 hn ▸ h
  | text | range => exact fun n hn => by cases hn
  | notAhead body ih => exact ih h
  | repeated body times ih => exact ih h
  | seq left right ihl ihr =>
    exact fun n hn => (List.mem_append.1 hn).elim (ihl h.1 n) (ihr h.2 n)
  | choice left right ihl ihr =>
    exact fun n hn => (List.mem_append.1 hn).elim (ihl h.1 n) (ihr h.2 n)
  | anyCase | peek | push | ahead => exact h.elim

/-- Two expressions in a sequence or in a choice. -/
def link (isChoice : Bool) (left right : Expr) : Expr :=
  match isChoice with
  | false => seq left right
  | true => choice left right

/-- A row of names: a sequence or a choice. -/
def row (isChoice : Bool) (first : String) (names : List String) : Expr :=
  (names.map ref).foldl (link isChoice) (ref first)

theorem sequence_refs (first : String) (names : List String) :
    sequence ((first :: names).map ref) = row false first names := by
  have : ∀ names : List String, (names.map ref).flatMap parts = names.map ref := fun names => by
    induction names with
    | nil => rfl
    | cons name names ih => exact congrArg (ref name :: ·) ih
  rw [sequence, this]
  rfl

theorem firstOf_refs (first : String) (names : List String) :
    firstOf ((first :: names).map ref) = row true first names := by
  have : ∀ names : List String, (names.map ref).flatMap branches = names.map ref := fun names => by
    induction names with
    | nil => rfl
    | cons name names ih => exact congrArg (ref name :: ·) ih
  rw [firstOf, this]
  rfl

theorem operands_row (isChoice : Bool) (first : String) (names : List String) :
    (row isChoice first names).operands = (ref first, names.map fun name => (isChoice, ref name)) := by
  have hrow (e : Expr) (items : List (Bool × Expr)) (names : List String)
      (he : e.operands = (ref first, items)) (hseq : isChoice = false → e.seqOperands = e.operands) :
      ((names.map ref).foldl (link isChoice) e).operands =
        (ref first, items ++ names.map fun name => (isChoice, ref name)) := by
    induction names generalizing e items with
    | nil => simpa using he
    | cons name names ih =>
      have hstep : (link isChoice e (ref name)).operands =
          (ref first, items ++ [(isChoice, ref name)]) := by
        cases isChoice with
        | false => simp only [link, operands, seqOperands, hseq rfl, he]
        | true => simp only [link, operands, seqOperands, he]
      have := ih (link isChoice e (ref name)) _ hstep fun h => by rw [h]; rfl
      simpa using this
  exact hrow (ref first) [] names rfl fun _ => rfl

theorem render_row (isChoice : Bool) (first : String) (names : List String) :
    (row isChoice first names).render.toList =
      first.toList ++ Peg.itemsText (rowItems isChoice names) := by
  rw [operands_text, operands_row, itemsText, rowItems, List.map_map]
  rfl

theorem names_row (isChoice : Bool) (first : String) (names : List String) :
    (row isChoice first names).names = first :: names := by
  have hrow (e : Expr) : ((names.map ref).foldl (link isChoice) e).names = e.names ++ names := by
    induction names generalizing e with
    | nil => simp
    | cons name names ih =>
      have hstep : (link isChoice e (ref name)).names = e.names ++ [name] := by
        cases isChoice <;> rfl
      rw [List.map_cons, List.foldl_cons, ih, hstep, List.append_assoc, List.singleton_append]
  exact hrow (ref first)

theorem readable_row {isChoice : Bool} {first : String} {names : List String}
    (h : ∀ name ∈ first :: names, IsRuleName name) : (row isChoice first names).Readable := by
  have hrow (e : Expr) (he : e.Readable) (names : List String) (h : ∀ name ∈ names, IsRuleName name) :
      ((names.map ref).foldl (link isChoice) e).Readable := by
    induction names generalizing e with
    | nil => exact he
    | cons name names ih =>
      refine ih _ ?_ fun n hn => h n (List.mem_cons_of_mem _ hn)
      have hname : (ref name).Readable := h name List.mem_cons_self
      cases isChoice <;> exact ⟨he, hname⟩
  exact hrow (ref first) (h first List.mem_cons_self) names fun n hn => h n (List.mem_cons_of_mem _ hn)

end Peg.Expr

/-! ## Paragraphs -/

namespace Peg.Rule

/-- The rules of generated grammars, the one for blanks apart: the expression of a token, or a row
of plain names. -/
structure IsSimple (r : Rule) : Prop where
  name : IsPlainName r.name
  body : r.body.IsLexical ∨ ∃ isChoice first names, r.body = .row isChoice first names ∧
    ∀ n ∈ first :: names, IsPlainName n

/-- Whether no name of the rule starts with `PUSH`. -/
def isClean (r : Rule) : Bool := (r.name :: r.body.names).all fun n => !startsWithPush n.toList

/-- A rule as it is written. -/
def text (r : Rule) : List Char :=
  ruleHead r.name r.kind ++ (r.body.render.toList ++ [' ', '\x7d'])

variable {r : Rule} {depth : Nat}

theorem IsSimple.isRuleName (h : r.IsSimple) (hc : r.isClean = true) : IsRuleName r.name :=
  ⟨h.name, by simpa using (List.all_eq_true.1 hc) r.name List.mem_cons_self⟩

theorem IsSimple.readable (h : r.IsSimple) (hc : r.isClean = true) : r.body.Readable := by
  rcases h.body with hb | ⟨isChoice, first, names, hb, hplain⟩
  · exact hb.readable
  · rw [hb]
    refine Expr.readable_row fun n hn => ⟨hplain n hn, ?_⟩
    have hmem : n ∈ r.name :: r.body.names := by
      rw [hb, Expr.names_row]
      exact List.mem_cons_of_mem _ hn
    simpa using (List.all_eq_true.1 hc) n hmem

theorem IsSimple.isApart (h : r.IsSimple) {lead : List Char}
    (hlead : ∀ s, dropGap (lead ++ s) = dropGap s) : (Paragraph.mk lead r.text r).IsApart := by
  obtain ⟨c, s, hs, hc, -⟩ := h.name
  refine ⟨fun t => ?_, c, s ++ ' ' :: '=' :: ' ' :: (r.kind.sign ++ ['\x7b', ' ']) ++
    (r.body.render.toList ++ [' ', '\x7d']), by simp [text, ruleHead, hs], hc⟩
  rw [hlead]
  show dropGap (r.text ++ t) = r.text ++ t
  rw [text, ruleHead, hs]
  exact dropGap_solid (startsGap_of_continuesName (continuesName_of_startsName hc)) _

theorem text_append (s : List Char) :
    r.text ++ s = r.name.toList ++
      ' ' :: '=' :: ' ' :: (r.kind.sign ++ '\x7b' :: ' ' :: (r.body.render.toList ++
        ' ' :: '\x7d' :: s)) := by
  rw [text, List.append_assoc, ruleHead_append]
  simp

section

variable (h : r.IsSimple) {s k : List Char}
  (hs : OpensRule s r.kind (r.body.render.toList ++ ' ' :: '\x7d' :: k))

include h hs

/-- A clean rule is read as it was written, whatever gap stands behind its name. -/
theorem IsSimple.finds (hc : r.isClean = true) (hdepth : r.body.render.toList.length ≤ depth) :
    (definition depth).Finds (r.name.toList ++ s) (fun x => ∃ d, x = some d ∧ d.Writes r) k := by
  have hbody := h.readable hc
  exact finds_definition (h.isRuleName hc) hs (Expr.dropGap_render hbody _)
    (readsBelow_expression depth r.body hbody (Nat.le_trans (Expr.size_le_length hbody) hdepth)
      '\x7d' _ k (.of_space (by decide) k) (by decide))

/-- A rule that is not clean is not read. -/
theorem IsSimple.refuses (hc : r.isClean = false) :
    (definition (depth + 1)).Refuses (r.name.toList ++ s) := by
  by_cases hname : startsWithPush r.name.toList = true
  · exact refuses_definition_name h.name hname hs.ends
  · obtain ⟨n, hn, hpush⟩ : ∃ n ∈ r.body.names, startsWithPush n.toList = true := by
      rw [isClean, List.all_eq_false] at hc
      obtain ⟨n, hn, hp⟩ := hc
      rw [Bool.not_eq_true', Bool.not_eq_false] at hp
      rcases List.mem_cons.1 hn with rfl | hn
      · exact absurd hp hname
      · exact ⟨n, hn, hp⟩
    rcases h.body with hb | ⟨isChoice, first, names, hb, hplain⟩
    · rw [(hb.readable.names n hn).2] at hpush
      cases hpush
    · rw [hb, Expr.names_row] at hn
      have hgap : ∀ t, dropGap (first.toList ++ t) = first.toList ++ t := by
        intro t
        obtain ⟨c, w, hw, hc, -⟩ := hplain first List.mem_cons_self
        rw [hw]
        exact dropGap_solid (startsGap_of_continuesName (continuesName_of_startsName hc)) _
      rw [hb, Expr.render_row] at hs
      refine refuses_definition_body ⟨h.name, Bool.eq_false_iff.2 hname⟩ hs fun name span o => ?_
      rw [List.append_assoc, hgap]
      exact refuses_ruleBody_row hplain ⟨n, hn, hpush⟩ depth span o k

end

theorem IsSimple.reads (h : r.IsSimple) (hc : r.isClean = true)
    (hdepth : r.body.render.toList.length ≤ depth) (lead : List Char) :
    (Paragraph.mk lead r.text r).Reads depth := by
  intro s
  rw [text_append]
  exact h.finds (opensRule_ruleHead r.kind _) hc hdepth

theorem IsSimple.fails (h : r.IsSimple) (hc : r.isClean = false) (lead : List Char) :
    (Paragraph.mk lead r.text r).Fails (depth + 1) := by
  intro s
  rw [text_append]
  exact h.refuses (opensRule_ruleHead r.kind _) hc

end Peg.Rule

/-! ## Comments -/

theorem notMem_of_mem_linesOf {s line : List Char} (h : line ∈ Text.linesOf s) :
    '\n' ∉ line.dropLast ∧ line ≠ [] := by
  induction s generalizing line with
  | nil => cases h
  | cons c s ih =>
    rw [Text.linesOf] at h
    split at h
    · rcases List.mem_cons.1 h with rfl | h
      · exact ⟨by simp, by simp⟩
      · exact ih h
    · rename_i hc
      split at h
      · obtain rfl := List.mem_singleton.1 h
        exact ⟨by simp, by simp⟩
      · rename_i line' lines hlines
        rw [hlines] at ih
        rcases List.mem_cons.1 h with rfl | h
        · obtain ⟨hn, hne⟩ := ih List.mem_cons_self
          rw [List.dropLast_cons_of_ne_nil hne]
          exact ⟨by simp [hn, Ne.symm hc], by simp⟩
        · exact ih (List.mem_cons_of_mem _ h)

/-- A line has no line feed. -/
theorem notMem_of_mem_lines {s line : List Char} (h : line ∈ Text.lines s) : '\n' ∉ line := by
  obtain ⟨l, hl, rfl⟩ := List.mem_map.1 h
  obtain ⟨hn, hne⟩ := notMem_of_mem_linesOf hl
  obtain ⟨init, last, rfl⟩ : ∃ init last, l = init ++ [last] :=
    ⟨l.dropLast, l.getLast hne, (List.dropLast_append_getLast hne).symm⟩
  rw [List.dropLast_concat] at hn
  rw [Text.dropLineEnd, List.reverse_append, List.reverse_singleton, List.singleton_append]
  split
  · rename_i t ht
    have : init = t.reverse ++ ['\r'] := by
      rw [← List.reverse_reverse init, (List.cons.inj ht).2]
      simp
    exact fun h => hn (this ▸ List.mem_append_left _ h)
  · rename_i t _ ht
    have : init = t.reverse := by
      rw [← List.reverse_reverse init, (List.cons.inj ht).2]
    exact fun h => hn (this ▸ h)
  · rename_i hlast
    intro h
    rcases List.mem_append.1 h with h | h
    · exact hn h
    · exact hlast init.reverse (by rw [List.mem_singleton.1 h])

theorem commentLine_eq (line : List Char) :
    ∃ rest, commentLine line = '/' :: '/' :: rest ∧ rest.head? ≠ some '/' ∧
      rest.head? ≠ some '!' ∧ (∀ c ∈ rest, c = ' ' ∨ c ∈ line) := by
  rw [commentLine]
  split
  · cases line with
    | nil => exact ⟨[], rfl, by simp, by simp, fun c hc => by cases hc⟩
    | cons c line =>
      refine ⟨' ' :: (c :: line).dropLast, rfl, by simp, by simp, fun d hd => ?_⟩
      exact (List.mem_cons.1 hd).imp_right fun h => (List.dropLast_sublist _).subset h
  · exact ⟨' ' :: line, rfl, by simp, by simp, fun d hd => List.mem_cons.1 hd⟩

/-- A comment on lines of its own is passed over. -/
theorem dropGap_commentLines (comment : String) (s : List Char) :
    dropGap ((commentLines comment).toList ++ s) = dropGap s := by
  have hlines : ∀ lines : List (List Char), (∀ l ∈ lines, '\n' ∉ l) →
      dropGap ((lines.flatMap fun line => commentLine line ++ ['\n']) ++ s) = dropGap s := by
    intro lines h
    induction lines with
    | nil => rfl
    | cons line lines ih =>
      obtain ⟨rest, hrest, h₁, h₂, hmem⟩ := commentLine_eq line
      have hn : '\n' ∉ rest := fun hc => (hmem _ hc).elim (by decide) (h line List.mem_cons_self)
      rw [List.flatMap_cons, hrest, List.append_assoc, List.append_assoc]
      exact (dropGap_lineComment hn h₁ h₂ _).trans (ih fun l hl => h l (List.mem_cons_of_mem _ hl))
  have htext : (commentLines comment).toList =
      (Text.lines comment.toList).flatMap fun line => commentLine line ++ ['\n'] := by
    rw [commentLines, String.toList_join, List.flatMap_map]
    simp
  rw [htext]
  exact hlines _ fun l hl => notMem_of_mem_lines hl

/-- The first line of a generated text is passed over. -/
theorem dropGap_header {m : Model} (hname : '\n' ∉ m.name.toList)
    (hversion : '\n' ∉ m.version.toList) (s : List Char) :
    dropGap ((header m).toList ++ s) = dropGap s := by
  have htext : (header m).toList = "// @generated by bnf-forge from ".toList ++
      (m.name.toList ++ (" ".toList ++ (m.version.toList ++ ". Do not edit.\n".toList))) := by
    unfold header
    simp only [String.toList_append, List.append_assoc]
  have hline (a b : List Char) : "// @generated by bnf-forge from ".toList ++
      (a ++ (" ".toList ++ (b ++ ". Do not edit.\n".toList))) ++ s =
        '/' :: '/' :: ((' ' :: ("@generated by bnf-forge from ".toList ++
          (a ++ (" ".toList ++ (b ++ ". Do not edit.".toList))))) ++ '\n' :: s) := by
    simp
  have hn : '\n' ∉ ' ' :: ("@generated by bnf-forge from ".toList ++
      (m.name.toList ++ (" ".toList ++ (m.version.toList ++ ". Do not edit.".toList)))) := by
    simp only [List.mem_cons, List.mem_append, hname, hversion, false_or, not_or]
    decide
  rw [htext, hline]
  exact dropGap_lineComment hn (by simp) (by simp) s

/-! ## The rule for blanks -/

/-- The rule for blanks as it is written. -/
def blanksText : List Char := "WHITESPACE = _\x7b \" \" | \"\\t\" | \"\\r\" | \"\\n\" \x7d".toList

theorem readsOperand_quoted {inner : Reader Opened} {p : List Char} {s : String}
    (h : ∀ k, quoted.Finds ('"' :: (p ++ k)) (fun x => x.1 = some s) k) :
    ReadsOperand inner ('"' :: p) (.text s) :=
  readsOperand_of_terminal rfl (by decide) rfl rfl fun k => finds_terminal_quoted (h k)

theorem reads_blanksText (depth : Nat) (lead : List Char) :
    (Paragraph.mk lead blanksText blanksPegRule).Reads (depth + 1) := by
  intro s
  have hitems : ReadsItems (expression depth)
      [(true, ['"', '\\', 't', '"']), (true, ['"', '\\', 'r', '"']), (true, ['"', '\\', 'n', '"'])]
      [(true, .text "\t"), (true, .text "\r"), (true, .text "\n")] :=
    .cons ⟨rfl, readsOperand_quoted fun _ _ => ⟨_, _, rfl, rfl⟩⟩ <|
    .cons ⟨rfl, readsOperand_quoted fun _ _ => ⟨_, _, rfl, rfl⟩⟩ <|
    .cons ⟨rfl, readsOperand_quoted fun _ _ => ⟨_, _, rfl, rfl⟩⟩ .nil
  have hfirst : ReadsOperand (expression depth) ['"', ' ', '"'] (.text " ") :=
    readsOperand_quoted fun _ _ => ⟨_, _, rfl, rfl⟩
  have hend : Follows (' ' :: '\x7d' :: s) '\x7d' s := .of_space (by decide) s
  have hbody := readsTo_expressionOf hfirst hitems hend (by decide) (by
    rw [hend.drop]
    exact refuses_item_closed (by decide) s)
  have hname : IsRuleName "WHITESPACE" := ⟨⟨'W', "HITESPACE".toList, rfl, rfl, by decide⟩, rfl⟩
  have htext : blanksText = ruleHead "WHITESPACE" .silent ++ (['"', ' ', '"'] ++ (itemsText
      [(true, ['"', '\\', 't', '"']), (true, ['"', '\\', 'r', '"']), (true, ['"', '\\', 'n', '"'])] ++
        [' ', '\x7d'])) := by
    decide
  have hassoc (a b c : List Char) : a ++ (b ++ (c ++ [' ', '\x7d'])) ++ s =
      a ++ ((b ++ c) ++ ' ' :: '\x7d' :: s) := by
    simp
  rw [← List.append_assoc] at hbody
  show (definition (depth + 1)).Finds (blanksText ++ s) _ s
  rw [htext, hassoc, ruleHead_append]
  exact finds_definition hname (opensRule_ruleHead .silent _) (dropGap_solid rfl _) hbody

/-! ## Simple rules -/

theorem isPlainName_of_isIdentifier {name : String} (h : isIdentifier name = true) :
    IsPlainName name := by
  rw [isIdentifier] at h
  split at h
  · cases h
  · rename_i c s hs
    rw [Bool.and_eq_true, List.all_eq_true] at h
    refine ⟨c, s, hs, ?_, fun d hd => ?_⟩
    · rw [startsName, Bool.or_comm]
      exact h.1
    · rw [continuesName, Bool.or_comm]
      exact h.2 d hd

namespace Model

variable {m : Model} {startRule : String}

theorem IsValid.isPlainName (h : m.IsValid) {name : String} (hn : m.has name = true) :
    IsPlainName name := isPlainName_of_isIdentifier (h.names name (has_iff.1 hn))

/-- The rule of a node of a valid model is simple. -/
theorem IsValid.isSimple (h : m.IsValid) {name : String} {n : Node} {r : NodeRule}
    (hn : m.node? name = some n) (hr : NodeRule.ofNode name n = .ok r) : r.rule.IsSimple := by
  have hname : IsPlainName name := h.isPlainName (has_iff_node?.2 ⟨n, hn⟩)
  have hrefs : ∀ x ∈ n.references, IsPlainName x := fun x hx => h.isPlainName (h.references hn x hx)
  rw [NodeRule.ofNode] at hr
  rw [Node.references] at hrefs
  cases hb : n.body with
  | token pattern =>
    rw [hb] at hr
    obtain ⟨e, he, hr⟩ := bind_ok hr
    cases hr
    refine ⟨hname, .inl ?_⟩
    cases pattern with
    | literal text => cases he; exact trivial
    | regex source => exact lowerPattern_isLexical he
  | deduction elements =>
    rw [hb] at hr hrefs
    cases hr
    refine ⟨hname, ?_⟩
    cases elements with
    | nil => exact .inl trivial
    | cons e es =>
      refine .inr ⟨false, e.target, es.map Element.target, ?_, hrefs⟩
      show Expr.sequence ((e :: es).map fun e => .ref e.target) = _
      rw [← Expr.sequence_refs, ← List.map_cons, List.map_map]
      rfl
  | union members =>
    rw [hb] at hr hrefs
    cases hr
    refine ⟨hname, ?_⟩
    cases members with
    | nil => exact absurd rfl (h.members hn hb)
    | cons x xs => exact .inr ⟨true, x, xs, Expr.firstOf_refs x xs, hrefs⟩

theorem mem_rules {r : NodeRule} :
    r ∈ m.rules ↔ ∃ name n, m.node? name = some n ∧ NodeRule.ofNode name n = .ok r := by
  rw [rules, List.mem_filterMap]
  constructor
  · rintro ⟨⟨name, n⟩, hmem, h⟩
    refine ⟨name, n, node?_eq_some_iff.2 hmem, ?_⟩
    cases hr : NodeRule.ofNode name n with
    | error cause => simp [hr, Except.toOption] at h
    | ok r' => simpa [hr, Except.toOption] using h
  · rintro ⟨name, n, hn, h⟩
    exact ⟨(name, n), node?_eq_some_iff.1 hn, by simp [h, Except.toOption]⟩

theorem isSimple_startPegRule (h : m.IsValid) (hs : IsPlainName startRule) :
    (startPegRule startRule m.start).IsSimple := by
  refine ⟨hs, .inr ⟨false, "SOI", [m.start, "EOI"], Expr.sequence_refs _ _, ?_⟩⟩
  simp only [List.forall_mem_cons]
  exact ⟨⟨'S', "OI".toList, rfl, rfl, by decide⟩, h.isPlainName h.start,
    ⟨'E', "OI".toList, rfl, rfl, by decide⟩, fun x hx => by cases hx⟩

end Model

/-! ## The whole text -/

/-- What stands in front of the rule of a node. -/
def NodeRule.lead (r : NodeRule) (includeComments : Bool) : List Char :=
  '\n' :: '\n' :: (if includeComments then (r.comment.map commentLines).getD "" else "").toList

theorem NodeRule.render_toList (r : NodeRule) : r.render.toList = r.rule.text := by
  have hsign : r.shape.sign.toList = r.shape.ruleKind.sign := by
    cases r.shape <;> simp [Shape.sign, Shape.ruleKind, RuleKind.sign]
  simp only [render, String.toList_append, hsign, rule, Rule.text, ruleHead, List.append_assoc]
  simp

namespace Model

variable {m : Model} {c : GrammarConfig}

/-- The first paragraph of a grammar text: the rule for blanks behind the first line. -/
def blanksParagraph (m : Model) : Paragraph where
  lead := (header m).toList ++ ['\n']
  text := blanksText
  rule := blanksPegRule

/-- The other paragraphs. -/
def paragraphs (m : Model) (c : GrammarConfig) : List Paragraph :=
  ⟨['\n', '\n'], (startPegRule c.startRule m.start).text, startPegRule c.startRule m.start⟩ ::
    m.rules.map fun r => ⟨r.lead c.includeComments, r.rule.text, r.rule⟩

theorem rule_paragraphs :
    (m.blanksParagraph :: m.paragraphs c).map Paragraph.rule = m.pegRules c.startRule := by
  simp [blanksParagraph, paragraphs, pegRules]

theorem text_startPegRule (startRule start : String) :
    (startRuleText startRule start).toList = (startPegRule startRule start).text ++ ['\n'] := by
  have hbody : (Expr.sequence (["SOI", start, "EOI"].map .ref)).render.toList =
      "SOI".toList ++ itemsText (rowItems false [start, "EOI"]) := by
    rw [List.map_cons, ← List.map_cons, Expr.sequence_refs, Expr.render_row]
  simp only [startRuleText, String.toList_append, startPegRule, Rule.text, hbody, ruleHead,
    RuleKind.sign, rowItems, itemsText, signOf, List.append_assoc]
  simp

theorem grammarText_toList :
    (grammarText m c m.rules).toList =
      Paragraph.join (m.blanksParagraph :: m.paragraphs c) ++ ['\n'] := by
  have hrules : ∀ rules : List NodeRule, '\n' ::
      (rules.flatMap fun r => (r.paragraph c.includeComments).toList) =
      (rules.flatMap fun r => r.lead c.includeComments ++ r.rule.text) ++ ['\n'] := by
    intro rules
    induction rules with
    | nil => rfl
    | cons r rules ih =>
      rw [List.flatMap_cons, List.flatMap_cons, List.append_assoc, ← ih]
      simp [NodeRule.paragraph, NodeRule.lead, NodeRule.render_toList]
  have hblanks : blanksRule.toList = blanksText ++ ['\n'] := by decide
  rw [grammarText, String.toList_append, String.toList_append, String.toList_append,
    String.toList_append, String.toList_append, String.toList_join, List.flatMap_map,
    text_startPegRule, hblanks]
  have := hrules m.rules
  simp only [Paragraph.join, blanksParagraph, paragraphs, List.flatMap_cons, List.flatMap_map,
    List.append_assoc, List.cons_append, List.nil_append] at this ⊢
  rw [← this]
  rfl

/-! ## Reading the text -/

theorem isApart_blanksParagraph (hname : '\n' ∉ m.name.toList) (hversion : '\n' ∉ m.version.toList) :
    m.blanksParagraph.IsApart where
  behindGap s := by
    have hhead : ∃ t, blanksText ++ s = 'W' :: t := ⟨_, rfl⟩
    obtain ⟨t, ht⟩ := hhead
    show dropGap (((header m).toList ++ ['\n']) ++ (blanksText ++ s)) = blanksText ++ s
    rw [List.append_assoc, dropGap_header hname hversion, List.singleton_append, dropGap_feed, ht]
    exact dropGap_solid (by decide) t
  head := ⟨'W', _, rfl, rfl⟩

theorem dropGap_lead (r : NodeRule) (includeComments : Bool) (s : List Char) :
    dropGap (r.lead includeComments ++ s) = dropGap s := by
  rw [NodeRule.lead, List.cons_append, List.cons_append, dropGap_feed, dropGap_feed]
  cases includeComments with
  | false => rfl
  | true =>
    cases r.comment with
    | none => rfl
    | some comment => exact dropGap_commentLines comment s

/-- The paragraphs behind the first one hold simple rules. -/
theorem IsValid.paragraphs (h : m.IsValid) (hs : IsPlainName c.startRule) {p : Paragraph}
    (hp : p ∈ m.paragraphs c) :
    ∃ lead r, p = ⟨lead, r.text, r⟩ ∧ r.IsSimple ∧ ∀ s, dropGap (lead ++ s) = dropGap s := by
  rcases List.mem_cons.1 hp with rfl | hp
  · refine ⟨_, _, rfl, isSimple_startPegRule h hs, fun s => ?_⟩
    rw [List.cons_append, List.cons_append, dropGap_feed, dropGap_feed, List.nil_append]
  · obtain ⟨r, hr, rfl⟩ := List.mem_map.1 hp
    obtain ⟨name, n, hn, hr⟩ := mem_rules.1 hr
    exact ⟨_, _, rfl, h.isSimple hn hr, dropGap_lead r _⟩

theorem length_le_join {p : Paragraph} {ps : List Paragraph} (hp : p ∈ ps) :
    p.text.length ≤ (Paragraph.join ps).length := by
  obtain ⟨before, after, rfl⟩ := List.append_of_mem hp
  simp only [Paragraph.join, List.flatMap_append, List.flatMap_cons, List.length_append]
  omega

section Reading

variable (h : m.IsValid) (hname : '\n' ∉ m.name.toList) (hversion : '\n' ∉ m.version.toList)
  (hs : IsPlainName c.startRule)

include h hname hversion hs

theorem isApart_paragraphs {p : Paragraph} (hp : p ∈ m.blanksParagraph :: m.paragraphs c) :
    p.IsApart := by
  rcases List.mem_cons.1 hp with rfl | hp
  · exact isApart_blanksParagraph hname hversion
  · obtain ⟨lead, r, rfl, hr, hlead⟩ := h.paragraphs hs hp
    exact hr.isApart hlead

omit hname hversion in
theorem reads_paragraph {p : Paragraph} (hp : p ∈ m.blanksParagraph :: m.paragraphs c)
    (hc : p.rule.isClean = true) {depth : Nat} (hdepth : p.text.length ≤ depth) :
    p.Reads (depth + 1) := by
  rcases List.mem_cons.1 hp with rfl | hp
  · exact reads_blanksText depth _
  · obtain ⟨lead, r, rfl, hr, -⟩ := h.paragraphs hs hp
    refine hr.reads hc ?_ lead
    have hlen : r.body.render.toList.length ≤ r.text.length := by
      rw [Rule.text, List.length_append, List.length_append]
      omega
    exact Nat.le_succ_of_le (Nat.le_trans hlen hdepth)

/-- **A text of clean rules is read as these rules.** -/
theorem readGrammar_grammarText (hclean : ∀ r ∈ m.pegRules c.startRule, r.isClean = true) :
    ∃ ds, readGrammar (grammarText m c m.rules).toList = .ok ds ∧
      List.Forall₂ Definition.Writes ds (m.pegRules c.startRule) := by
  rw [grammarText_toList, ← rule_paragraphs]
  refine Paragraph.readGrammar_join (fun p hp => isApart_paragraphs h hname hversion hs hp)
    fun p hp => reads_paragraph h hs hp (hclean _ ?_) ?_
  · rw [← rule_paragraphs]
    exact List.mem_map_of_mem hp
  · have := length_le_join hp
    rw [List.length_append]
    omega

/-- **A text with any other rule cannot be read.** -/
theorem isClean_of_readGrammar {ds : List Definition}
    (hds : readGrammar (grammarText m c m.rules).toList = .ok ds) :
    ∀ r ∈ m.pegRules c.startRule, r.isClean = true := by
  rw [← rule_paragraphs]
  intro r hr
  obtain ⟨p, hp, rfl⟩ := List.mem_map.1 hr
  rcases List.mem_cons.1 hp with rfl | hp
  · exact (by decide : blanksPegRule.isClean = true)
  by_contra hc
  obtain ⟨bad, hbad⟩ : ∃ bad, (m.paragraphs c).find? (fun q => !q.rule.isClean) = some bad := by
    rw [← Option.isSome_iff_exists, List.find?_isSome]
    exact ⟨p, hp, by simpa using hc⟩
  obtain ⟨hbadClean, good, more, hsplit, hgood⟩ := List.find?_eq_some_iff_append.1 hbad
  have hmem {q : Paragraph} (hq : q ∈ good ++ bad :: more) : q ∈ m.paragraphs c := hsplit ▸ hq
  suffices herror : ∃ a, readGrammar (Paragraph.join
      (m.blanksParagraph :: (good ++ bad :: more)) ++ ['\n']) = .error a by
    obtain ⟨a, ha⟩ := herror
    rw [← hsplit, ← grammarText_toList, hds] at ha
    cases ha
  refine Paragraph.readGrammar_join_error ?_ ?_ ?_
  · intro q hq
    rw [← hsplit] at hq
    exact isApart_paragraphs h hname hversion hs hq
  · intro q hq
    have hq' : q ∈ m.blanksParagraph :: (good ++ bad :: more) :=
      List.mem_cons.2 ((List.mem_cons.1 hq).imp_right (List.mem_append_left _))
    refine reads_paragraph h hs (hsplit ▸ hq') ?_ ?_
    · rcases List.mem_cons.1 hq with rfl | hq
      · exact (by decide : blanksPegRule.isClean = true)
      · simpa using hgood q hq
    · have := length_le_join hq'
      rw [List.length_append]
      omega
  · obtain ⟨lead, r, rfl, hr, -⟩ :=
      h.paragraphs hs (hmem (List.mem_append_right _ List.mem_cons_self))
    exact hr.fails (by simpa using hbadClean) lead

end Reading

end Model

end GrammarKit
