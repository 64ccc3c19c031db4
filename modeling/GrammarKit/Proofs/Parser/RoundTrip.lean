import GrammarKit.Proofs.Compiler.Warnings
import GrammarKit.Proofs.Parser.Respacing

/-!
# Reading what was printed

A value that was read from a text is printed with one space between its elements, and what is
printed is read again. It has the same value if it has the same tokens: where no token of the
model goes on beyond the end of another one, every text has; otherwise a space in a new place can
end a token earlier than the text did, and another member of a union comes first.

* `Model.HasFirmTokens`: no token goes on beyond the end of another one.
* `hasFirmTokens_of_apart`: tokens that are told apart by their first characters.
* `Model.Respelled`: texts with the same tokens, of which the second has blanks behind each.
* `Model.Respells`: how the value of a node is printed.
* `respells_of_readNode`: every tree that a node reads is printed with its tokens.
* **`parse_printed`**: when a printed value is read as itself.
* `exists_printed_read_otherwise`: a printed value that is read as another one.
-/

namespace GrammarKit

open Peg

/-! ## Tokens that end where others end -/

/-- **No token goes on beyond the end of another one**: in a place where one token takes the text
`w`, every token takes `w` as well or nothing at all, and so it does if `w` ends there or a blank
follows. -/
def Model.HasFirmTokens (m : Model) (takes : String → Taking) : Prop :=
  ∀ x y, m.IsToken x → m.IsToken y → ∀ w t t', w ≠ [] → dropBlanks (w ++ t) = w ++ t →
    takes x (w ++ t) = .read t → EndsWord t' →
    Reading.Alike (fun u u' => u = t ∧ u' = t' ∨ u = w ++ t ∧ u' = w ++ t')
      (takes y (w ++ t)) (takes y (w ++ t'))

/-- What is taken is taken as well where the text ends behind it, or a blank follows. -/
def Peg.Taking.EndsInFrontOfBlanks (f : Taking) : Prop :=
  ∀ w t t', w ≠ [] → f (w ++ t) = .read t → EndsWord t' → f (w ++ t') = .read t'

namespace Peg.Taking

theorem endsInFrontOfBlanks_text (v : List Char) : (Taking.text v).EndsInFrontOfBlanks := by
  intro w t t' _ h _
  obtain rfl := List.append_cancel_right (text_eq_read.1 h)
  exact text_eq_read.2 rfl

theorem many_char (p : Char → Bool) (c : Char) (s : List Char) :
    Taking.seq (Taking.char p) (Taking.star (Taking.char p)) (c :: s) =
      if p c then .read (s.dropWhile p) else .refused := by
  by_cases hc : p c = true
  · rw [seq, char, if_pos hc, if_pos hc, Reading.bind_read]
    cases s with
    | nil => rfl
    | cons d s =>
      rw [star, char]
      by_cases hd : p d = true
      · simp only [hd, if_true, loop_char, List.dropWhile_cons_of_pos hd]
      · simp only [hd, Bool.false_eq_true, if_false, List.dropWhile_cons_of_neg hd]
  · rw [seq, char, if_neg hc, if_neg hc]
    rfl

/-- One or more characters of a class without blanks. -/
theorem endsInFrontOfBlanks_many_char {p : Char → Bool}
    (hp : ∀ c, Text.isBlank c = true → p c = false) :
    (Taking.seq (Taking.char p) (Taking.star (Taking.char p))).EndsInFrontOfBlanks := by
  intro w t t' hw h hend
  obtain ⟨c, w, rfl⟩ := List.exists_cons_of_ne_nil hw
  rw [List.cons_append, many_char] at h ⊢
  split at h
  · rename_i hc
    have hall : ∀ d ∈ w, p d = true := by
      have hdrop := Reading.read.inj h
      rw [List.dropWhile_append] at hdrop
      split at hdrop
      · rename_i hempty
        exact List.dropWhile_eq_nil_iff.1 (List.isEmpty_iff.1 hempty)
      · rename_i hempty
        exact absurd (List.isEmpty_iff.2 (List.append_left_eq_self.1 hdrop)) hempty
    have hstop : t'.dropWhile p = t' := by
      cases t' with
      | nil => rfl
      | cons d t' => rw [List.dropWhile_cons_of_neg (by simp [hp d (hend d rfl)])]
    rw [if_pos hc, List.dropWhile_append_of_pos hall, hstop]
  · cases h

end Peg.Taking

/-- **Texts with the same tokens**, of which the second one ends or has a blank behind each. -/
inductive Model.Respelled (m : Model) (takes : String → Taking) : List Char → List Char → Prop
  | nil : Respelled m takes [] []
  | token {x : String} {w t t' : List Char} : m.IsToken x → w ≠ [] →
    dropBlanks (w ++ t) = w ++ t → takes x (w ++ t) = .read t → EndsWord t' →
    Respelled m takes (dropBlanks t) (dropBlanks t') → Respelled m takes (w ++ t) (w ++ t')

/-- What follows a text that starts without a blank does not change how it starts. -/
theorem dropBlanks_append_eq_self {w t : List Char} (hw : w ≠ [])
    (h : dropBlanks (w ++ t) = w ++ t) (t' : List Char) : dropBlanks (w ++ t') = w ++ t' := by
  obtain ⟨c, w, rfl⟩ := List.exists_cons_of_ne_nil hw
  exact dropBlanks_cons_eq_self_iff.2 (dropBlanks_cons_eq_self_iff.1 h)

namespace Model

variable {m : Model} {takes : String → Taking}

/-- **Firm tokens take the same of texts with the same tokens.** -/
theorem HasFirmTokens.respaces (h : m.HasFirmTokens takes)
    (hends : ∀ name, (takes name).LeavesEnd) : m.Respaces takes (m.Respelled takes) where
  trimmed hs := by
    cases hs with
    | nil => exact ⟨rfl, rfl⟩
    | token _ hw htrimmed => exact ⟨htrimmed, dropBlanks_append_eq_self hw htrimmed _⟩
  ends hs := by
    cases hs with
    | nil => rfl
    | token _ hw => simp [hw]
  token {y} hy s s' hs := by
    cases hs with
    | nil =>
      cases hread : takes y [] with
      | read t =>
        obtain rfl := List.suffix_nil.1 (hends y _ _ hread)
        exact .read ⟨rfl, .nil⟩
      | refused => exact .refused
      | stuck => exact .stuck
    | @token x w t t' hx hw htrimmed htake hend hrest =>
      refine (h x y hx hy w t t' hw htrimmed htake hend).mono ?_
      rintro u u' (⟨rfl, rfl⟩ | ⟨rfl, rfl⟩)
      · rw [front_append, front_append]
        exact ⟨rfl, hrest⟩
      · rw [htrimmed, dropBlanks_append_eq_self hw htrimmed]
        refine ⟨?_, .token hx hw htrimmed htake hend hrest⟩
        rw [front, front, Nat.sub_self, Nat.sub_self]
        rfl

/-- **Tokens that are told apart by their first characters are firm** if each ends in front of a
blank as it ends elsewhere. -/
theorem hasFirmTokens_of_apart (starts : String → Char → Bool)
    (hstarts : ∀ {x}, m.IsToken x → ∀ {c s}, starts x c = false → takes x (c :: s) = .refused)
    (hends : ∀ {x}, m.IsToken x → (takes x).EndsInFrontOfBlanks)
    (hapart : ∀ {x y}, m.IsToken x → m.IsToken y → x ≠ y → ∀ {c}, starts x c = true →
      starts y c = false) : m.HasFirmTokens takes := by
  intro x y hx hy w t t' hw _ htake hend
  by_cases hxy : x = y
  · subst hxy
    rw [htake, hends hx w t t' hw htake hend]
    exact .read (.inl ⟨rfl, rfl⟩)
  · obtain ⟨c, w, rfl⟩ := List.exists_cons_of_ne_nil hw
    have hx' : starts x c = true := by
      by_contra hc
      rw [List.cons_append, hstarts hx ((Bool.not_eq_true _).mp hc)] at htake
      cases htake
    rw [List.cons_append, List.cons_append, hstarts hy (hapart hx hy hxy hx'),
      hstarts hy (hapart hx hy hxy hx')]
    exact .refused

/-! ## Nodes -/

/-- The text `str` is that of the value `v`, or the fixed text of the token that `v` stands for. -/
def Writes (m : Model) (name : String) (v : Json) (str : String) : Prop :=
  m.stringify " " v = .ok str ∨ m.literalOf? name = some str

/-- **The value `v` of a node is printed with the tokens that it was read from**, those between `s`
and `t`, whatever is printed behind it. -/
structure Respells (m : Model) (takes : String → Taking) (name : String) (v : Json)
    (s t : List Char) : Prop where
  written : dropBlanks s = s → ∀ {str}, m.Writes name v str → ∀ {k}, EndsWord k →
    m.Respelled takes (dropBlanks t) (dropBlanks k) →
    m.Respelled takes s (dropBlanks (str.toList ++ k))
  literal : ∀ {str}, m.literalOf? name = some str → s = str.toList ++ t

theorem toList_intercalate_cons (str : String) (texts : List String) :
    (" ".intercalate (str :: texts)).toList =
      str.toList ++ if texts = [] then [] else ' ' :: (" ".intercalate texts).toList := by
  cases texts with
  | nil => simp
  | cons str' texts => simp [String.toList_intercalate]

/-- An element prints a text of its node, or nothing if that is empty. -/
theorem writes_of_prints {e : Element} {v : Json} {texts : List String}
    (h : m.Prints " " e v texts) (he : e.property = none → (m.literalOf? e.target).isSome = true) :
    (∃ str, m.Writes e.target v str ∧ texts = [str]) ∨
      m.literalOf? e.target = some "" ∧ texts = [] := by
  rw [Prints] at h
  cases hp : e.property with
  | none =>
    rw [hp] at h
    obtain ⟨text, htext⟩ := Option.isSome_iff_exists.1 (he hp)
    simp only [fixedText, htext] at h
    split at h
    · rename_i hempty
      exact .inr ⟨hempty ▸ htext, h⟩
    · exact .inl ⟨text, .inr htext, h⟩
  | some property =>
    rw [hp] at h
    obtain ⟨str, hstr, htexts⟩ := h
    exact .inl ⟨str, .inl hstr, htexts⟩

/-- An element in front of others that are printed with their tokens. -/
theorem Respells.cons {e : Element} {v : Json} {s t : List Char} {texts rest : List String}
    (h : m.Respells takes e.target v s t) (hprints : m.Prints " " e v texts)
    (he : e.property = none → (m.literalOf? e.target).isSome = true) (hs : dropBlanks s = s)
    {k : List Char} (hk : EndsWord k)
    (hrest : m.Respelled takes (dropBlanks t) (dropBlanks ((" ".intercalate rest).toList ++ k))) :
    m.Respelled takes s (dropBlanks ((" ".intercalate (texts ++ rest)).toList ++ k)) := by
  rcases writes_of_prints hprints he with ⟨str, hstr, rfl⟩ | ⟨hempty, rfl⟩
  · rw [List.singleton_append, toList_intercalate_cons, List.append_assoc]
    split
    · rename_i hnil
      rw [hnil] at hrest
      exact h.written hs hstr hk hrest
    · exact h.written hs hstr (fun c hc => by cases hc; rfl) hrest
  · obtain rfl : s = t := h.literal hempty
    rw [hs] at hrest
    exact hrest

/-- **A row is printed with its tokens.** -/
theorem respells_of_rowOf {shapes : Table Shape} {input : List Char} {elements : List Element}
    {trees : List Tree} {s t : List Char}
    (h : RowOf (fun x tree s t => ∃ v, valueOf shapes input tree = .ok v ∧ m.Respells takes x v s t)
      (elements.map Element.target) trees s t)
    (he : ∀ e ∈ elements, e.property = none → (m.literalOf? e.target).isSome = true) :
    ∃ values, List.Forall₂ (fun tree v => valueOf shapes input tree = .ok v) trees values ∧
      elements.length = values.length ∧ (dropBlanks s = s → ∀ texts,
        List.Forall₂ (fun x ts => m.Prints " " x.1 x.2 ts) (elements.zip values) texts →
        ∀ {k}, EndsWord k → m.Respelled takes (dropBlanks t) (dropBlanks k) →
        m.Respelled takes s (dropBlanks ((" ".intercalate texts.flatten).toList ++ k))) := by
  generalize hnames : elements.map Element.target = names at h
  induction h generalizing elements with
  | nil s =>
    obtain rfl := List.map_eq_nil_iff.1 hnames
    refine ⟨[], .nil, rfl, fun hs texts htexts k _ hrest => ?_⟩
    cases htexts
    rw [hs] at hrest
    exact hrest
  | last hread =>
    obtain ⟨e, rfl, rfl⟩ := List.map_eq_singleton_iff.1 hnames
    obtain ⟨v, hv, hrespells⟩ := hread
    refine ⟨[v], .cons hv .nil, rfl, fun hs texts htexts k hk hrest => ?_⟩
    cases htexts with
    | cons hprints hnil =>
      cases hnil
      exact hrespells.cons hprints (he e List.mem_cons_self) hs hk hrest
  | cons hread _ ih =>
    obtain ⟨e, elements, rfl, rfl, hmap⟩ := List.map_eq_cons_iff.1 hnames
    obtain ⟨v, hv, hrespells⟩ := hread
    obtain ⟨values, hvalues, hlength, hprinted⟩ :=
      ih (fun e he' => he e (List.mem_cons_of_mem _ he')) hmap
    refine ⟨v :: values, .cons hv hvalues, congrArg Nat.succ hlength,
      fun hs texts htexts k hk hrest => ?_⟩
    cases htexts with
    | cons hprints hothers =>
      rw [List.flatten_cons]
      exact hrespells.cons hprints (he e List.mem_cons_self) hs hk
        (hprinted (dropBlanks_dropBlanks _) _ hothers hk hrest)

/-- **Every tree that a node reads is printed with its tokens.** -/
theorem IsNamed.respells_of_readNode {startRule : String} (h : m.IsNamed startRule)
    (hv : m.IsValid) (hall : m.PrintsAll) {depth : Nat} {name : String} {s t : List Char}
    {tree : Tree}
    (hread : m.readNode (takesOf (m.routines startRule)) depth name s = .read (tree, t))
    (input : List Char) :
    ∃ v, valueOf (.ofList m.shapes) input tree = .ok v ∧
      m.Respells (takesOf (m.routines startRule)) name v s t := by
  refine readNode_induct (P := fun name tree s t =>
    ∃ v, valueOf (.ofList m.shapes) input tree = .ok v ∧
      m.Respells (takesOf (m.routines startRule)) name v s t) ?_ ?_ ?_ hread
  · intro name n pattern s t hn hb htake
    have hliteral {str : String} (hstr : m.literalOf? name = some str) : s = str.toList ++ t :=
      h.takesOf_literal hv hstr htake
    obtain ⟨w, rfl⟩ := leavesEnd_takesOf _ _ _ _ htake
    refine ⟨_, h.valueOf_token hn hb .., fun hs str hstr k hk hrest => ?_, hliteral⟩
    obtain rfl : str.toList = w := by
      rcases hstr with hstr | hstr
      · rw [front_append, stringify_token rfl hn hb rfl] at hstr
        cases hstr
        rw [String.toList_ofList]
      · exact (List.append_cancel_right (hliteral hstr)).symm
    by_cases hempty : str.toList = []
    · simp only [hempty, List.nil_append] at hs ⊢
      rw [hs] at hrest
      exact hrest
    · rw [dropBlanks_append_eq_self hempty hs]
      exact .token ⟨n, pattern, hn, hb⟩ hempty hs htake hk hrest
  · intro name n elements trees s t hn hb hrow
    obtain ⟨values, hvalues, hlength, hprinted⟩ := respells_of_rowOf hrow (hall hn hb)
    have hliteral : m.literalOf? name = none := by simp [literalOf?, hn, hb]
    refine ⟨_, h.valueOf_deduction hn hv hb hvalues hlength .., fun hs str hstr k hk hrest => ?_,
      fun hstr => ?_⟩
    · rcases hstr with hstr | hstr
      · rw [stringify_deduction rfl hn hb] at hstr
        obtain ⟨texts, htexts, hstr⟩ := bind_ok hstr
        cases hstr
        exact hprinted hs texts (prints_of_elementTexts (mapM_eq_ok_iff.1 htexts) hlength
          fun x hx property hp => hv.member?_fieldsOf hn hb hlength hx hp) hk hrest
      · rw [hliteral] at hstr
        cases hstr
    · rw [hliteral] at hstr
      cases hstr
  · rintro name n members x tree s t hn hb hx ⟨v, hvalue, hrespells⟩
    have hliteral : m.literalOf? name = none := by simp [literalOf?, hn, hb]
    refine ⟨v, hvalue, fun hs str hstr k hk hrest => ?_, fun hstr => ?_⟩
    · rcases hstr with hstr | hstr
      · exact hrespells.written hs (.inl hstr) hk hrest
      · rw [hliteral] at hstr
        cases hstr
    · rw [hliteral] at hstr
      cases hstr

end Model

/-! ## Whole texts -/

/-- **When a printed value is read as itself.** What is compiled without warnings prints every value
that it has read, and reads it again as the same value if the tokens take the same of the printed
text as of the text that was read. They do so in every text if none goes on beyond the end of
another one, where deductions with a type from outside print all of their elements; and they do so
in texts with the same words if they take no blanks. -/
theorem parse_printed {m : Model} {c : Config} {g : Grammar} {serial : Nat} {p : CompiledParser}
    (hname : '\n' ∉ m.name.toList) (hversion : '\n' ∉ m.version.toList)
    (hsuccess : (compileModel m c).success = true) (hwarnings : (compileModel m c).warnings = [])
    (hg : (compileModel m c).grammar.output? = some g) (hp : g.source.compile serial = .ok p)
    {text : String} {v : Json} (hparse : p.parse text = .value v) :
    ∃ s, m.stringify ({} : StringifyOptions).separator v = .ok s ∧
      (m.TakesAlike (takesOf p.routines) text.toList s.toList ∨
        (m.HasFirmTokens (takesOf p.routines) ∧ ∀ e ∈ m.nodes.entries,
          mappedType? c.naming e ≠ none → m.printsBody e.2.body = true) ∨
        (m.tokensAvoidBlanks p.routines = true ∧ wordsIn text.toList = wordsIn s.toList) →
      p.parse s = .value v) := by
  obtain ⟨-, -, ⟨t, ht⟩, -⟩ := compileModel_unwarned_iff.1 ⟨hsuccess, hwarnings⟩
  obtain ⟨warnings, hg⟩ := generateGrammar_of_compileModel hg
  obtain ⟨hv, hnamed, -⟩ := generateGrammar_eq_done hg
  obtain ⟨depth, tree, rest, hread, hend, hvalue⟩ := readNode_of_value hname hversion hg hp hparse
  have hroutines : p.routines = m.routines c.grammar.startRule := by
    obtain ⟨trees, st, hmatch⟩ := CompiledParser.exists_matched hparse
    have hanswer : Peg.parseWith p.routines p.startRule text.toList ≠ .stuck := by simp [hmatch]
    exact (parser_eq hname hversion hg hp hanswer).1
  obtain ⟨v', hvalue', hconforms⟩ := hnamed.valueOf_of_readNode hv hread text.toList
  obtain rfl : v = v' := Except.ok.inj (hvalue.symm.trans hvalue')
  obtain ⟨s, hs⟩ := hconforms.stringify hv ({} : StringifyOptions).separator
  refine ⟨s, hs, ?_⟩
  rw [hroutines]
  rintro (halike | ⟨hfirm, hmapped⟩ | ⟨hblanks, hwords⟩)
  · exact halike.respaces.parse_eq hname hversion hg hp .start hparse
  · have hall : m.PrintsAll := Model.printsAll_of_all <| List.all_eq_true.2 fun e he => by
      by_cases hnone : mappedType? c.naming e = none
      · exact printsBody_of_generateStringifier ht he hnone
      · exact hmapped e he hnone
    obtain ⟨v', hvalue', hrespells⟩ := hnamed.respells_of_readNode hv hall hread text.toList
    obtain rfl : v = v' := Except.ok.inj (hvalue.symm.trans hvalue')
    refine (hfirm.respaces fun name => leavesEnd_takesOf _ name).parse_eq hname hversion hg hp ?_
      hparse
    rw [← List.append_nil s.toList]
    refine hrespells.written (dropBlanks_dropBlanks _) (.inl hs) endsWord_nil ?_
    rw [hend]
    exact .nil
  · exact (Model.respaces_sameWords hblanks).parse_eq hname hversion hg hp
      (sameWords_dropBlanks hwords) hparse

/-- Words of letters and commas are told apart by their first characters. -/
theorem Model.hasFirmTokens_pairs :
    Model.pairs.HasFirmTokens (takesOf (Model.pairs.routines "start")) := by
  have hword : routineNamed? (Model.pairs.routines "start") "Word" = some ⟨"Word", .atomic,
      .seq (.range 'a' 'z') (.star (.range 'a' 'z'))⟩ := by decide +kernel
  have hcomma : routineNamed? (Model.pairs.routines "start") "Comma" =
      some ⟨"Comma", .atomic, .text ","⟩ := by decide +kernel
  have htokens : (Model.pairs.nodes.entries.all fun e =>
      e.2.kind != .token || e.1 == "Word" || e.1 == "Comma") = true := by decide +kernel
  have hnames {x : String} (hx : Model.pairs.IsToken x) : x = "Word" ∨ x = "Comma" := by
    obtain ⟨n, pattern, hn, hb⟩ := hx
    have h := List.all_eq_true.1 htokens _ (node?_eq_some_iff.1 hn)
    simpa [Node.kind, hb] using h
  refine hasFirmTokens_of_apart
    (fun x c => if x = "Word" then 'a' ≤ c && c ≤ 'z' else c == ',') ?_ ?_ ?_
  · intro x hx c s hc
    rcases hnames hx with rfl | rfl
    · rw [if_pos rfl] at hc
      rw [takesOf, hword]
      exact (Taking.many_char _ c s).trans (if_neg (by simp [hc]))
    · rw [takesOf, hcomma]
      rw [if_neg (by decide), beq_eq_false_iff_ne] at hc
      have hne : ¬ ',' = c := Ne.symm hc
      simp [Plan.takes, Taking.text, List.isPrefixOf, hne]
  · intro x hx
    rcases hnames hx with rfl | rfl
    · rw [takesOf, hword]
      exact Taking.endsInFrontOfBlanks_many_char fun c hc => by
        simp only [Text.isBlank, Bool.or_eq_true, beq_iff_eq] at hc
        rcases hc with ((rfl | rfl) | rfl) | rfl <;> decide
    · rw [takesOf, hcomma]
      exact Taking.endsInFrontOfBlanks_text _
  · intro x y hx hy hxy c hc
    rcases hnames hx with rfl | rfl <;> rcases hnames hy with rfl | rfl
    · exact absurd rfl hxy
    · rw [if_pos rfl] at hc
      rw [if_neg (by decide), beq_eq_false_iff_ne]
      rintro rfl
      exact Bool.false_ne_true hc
    · rw [if_neg (by decide), beq_iff_eq] at hc
      rw [hc]
      rfl
    · exact absurd rfl hxy

/-- Functions that stand beside the types and need no import of them. -/
def Config.beside : Config where
  stringifier := { schemaPath := "" }

theorem Config.isBroken_beside (m : Model) : (compileModel m .beside).isBroken = false :=
  isBroken_compileModel_eq_false (isWordBack_of_isIdentifier (by decide))
    (isWordBack_of_isIdentifier (by decide)) (isWordFront_of_isIdentifier (by decide)) rfl m

/-- Pairs with blanks in odd places are printed in one way, which is read as the same pairs. -/
theorem parse_printed_pairs : ∃ g v s,
    ((compileModel .pairs .beside).success = true ∧ (compileModel .pairs .beside).warnings = []) ∧
    (compileModel .pairs .beside).grammar.output? = some g ∧
    g.source.compile 0 = .ok (Model.pairs.parser {} 0) ∧
    (Model.pairs.parser {} 0).parse " a, b ,cd" = .value v ∧
    Model.pairs.stringify " " v = .ok s ∧ (Model.pairs.parser {} 0).parse s = .value v := by
  obtain ⟨g, hg, hp⟩ := Model.isAccepted_pairs.exists_compiled 0
  have hclean := Model.isAccepted_pairs.compileModel_unwarned (c := .beside)
    (by decide +kernel) (Config.isBroken_beside _) rfl rfl
    (Model.unreachable_eq_nil (by decide +kernel)) leftRecursive_pairs (by decide +kernel)
  have hvalue : ((Model.pairs.parser {} 0).parse " a, b ,cd").value?.isSome = true := by
    decide +kernel
  obtain ⟨v, hparse⟩ := ParseResult.exists_eq_value hvalue
  have houtput := output?_compileModel (c := .beside) hg
  obtain ⟨s, hs, hprinted⟩ := parse_printed (by decide) (by decide) hclean.1 hclean.2 houtput hp
    hparse
  have hmapped : ∀ e ∈ Model.pairs.nodes.entries,
      mappedType? Config.beside.naming e ≠ none → Model.pairs.printsBody e.2.body = true :=
    fun e _ hmapped => absurd rfl hmapped
  exact ⟨g, v, s, hclean, houtput, hp, hparse, hs,
    hprinted (.inr (.inl ⟨Model.hasFirmTokens_pairs, hmapped⟩))⟩

/-- Two letters next to each other are the letters `a` and `b`; with a blank between them, they are
any two words. -/
def Model.letters : Model :=
  ((((((new "Letters" "Any").insert "Word" (.token (.regex "[a-z]+"))).insert "A"
    (.token (.literal "a"))).insert "B" (.token (.literal "b"))).insert "Two"
    (.deduction [⟨"Word", some "first"⟩, ⟨"Word", some "second"⟩])).insert "Ab"
    (.deduction [⟨"A", some "left"⟩, ⟨"B", some "right"⟩])).insert "Any" (.union ["Two", "Ab"])

theorem Model.isAccepted_letters : letters.IsAccepted {} where
  valid := by decide +kernel
  name := by decide
  version := by decide
  names := by decide +kernel
  apart := by decide +kernel
  patterns := by decide +kernel
  readable := by decide +kernel
  rules := by decide +kernel

theorem leftRecursive_letters : Model.letters.leftRecursive = [] := by
  refine Model.leftRecursive_eq_nil_of_rank
    (fun name => if name = "Any" then 2 else if name = "Two" ∨ name = "Ab" then 1 else 0) ?_
  decide +kernel

theorem Model.stringify_letters {v left right : Json} (htype : v.textMember? "type" = some "Ab")
    (hleft : v.member? "left" = some left)
    (hleftTexts : (left.textMember? "type", left.textMember? "value") = (some "A", some "a"))
    (hright : v.member? "right" = some right)
    (hrightTexts : (right.textMember? "type", right.textMember? "value") = (some "B", some "b")) :
    letters.stringify " " v = .ok "a b" := by
  obtain ⟨hleftType, hleftText⟩ := Prod.mk.inj hleftTexts
  obtain ⟨hrightType, hrightText⟩ := Prod.mk.inj hrightTexts
  rw [stringify_deduction htype rfl rfl, mapM_eq_ok_iff.2 (.cons
    (elementTexts_token rfl hleft rfl rfl hleftType hleftText) (.cons
    (elementTexts_token rfl hright rfl rfl hrightType hrightText) .nil))]
  rfl

theorem exists_parse_letters : ∃ v w, (Model.letters.parser {} 0).parse "ab" = .value v ∧
    (Model.letters.parser {} 0).parse "a b" = .value w ∧
    Model.letters.stringify " " v = .ok "a b" ∧ w ≠ v := by
  have htype : ((Model.letters.parser {} 0).parse "ab").value?.bind (·.textMember? "type") =
      some "Ab" := by decide +kernel
  have hleft : (((Model.letters.parser {} 0).parse "ab").value?.bind (·.member? "left")).map
      (fun field => (field.textMember? "type", field.textMember? "value")) =
        some (some "A", some "a") := by decide +kernel
  have hright : (((Model.letters.parser {} 0).parse "ab").value?.bind (·.member? "right")).map
      (fun field => (field.textMember? "type", field.textMember? "value")) =
        some (some "B", some "b") := by decide +kernel
  have hother : ((Model.letters.parser {} 0).parse "a b").value?.bind (·.textMember? "type") =
      some "Two" := by decide +kernel
  obtain ⟨v, hv, htype⟩ := Option.bind_eq_some_iff.1 htype
  obtain ⟨w, hw, hother⟩ := Option.bind_eq_some_iff.1 hother
  rw [hv, Option.bind_some] at hleft hright
  obtain ⟨left, hleft, hleftTexts⟩ := Option.map_eq_some_iff.1 hleft
  obtain ⟨right, hright, hrightTexts⟩ := Option.map_eq_some_iff.1 hright
  refine ⟨v, w, ParseResult.value?_eq_some_iff.1 hv, ParseResult.value?_eq_some_iff.1 hw,
    Model.stringify_letters htype hleft hleftTexts hright hrightTexts, ?_⟩
  rintro rfl
  exact absurd (htype.symm.trans hother) (by decide)

/-- **A printed value can be read as another one**: the two letters are printed with a blank. -/
theorem exists_printed_read_otherwise : ∃ g v w,
    ((compileModel .letters .beside).success = true ∧
      (compileModel .letters .beside).warnings = []) ∧
    (compileModel .letters .beside).grammar.output? = some g ∧
    g.source.compile 0 = .ok (Model.letters.parser {} 0) ∧
    (Model.letters.parser {} 0).parse "ab" = .value v ∧
    Model.letters.stringify ({} : StringifyOptions).separator v = .ok "a b" ∧
    (Model.letters.parser {} 0).parse "a b" = .value w ∧ w ≠ v := by
  obtain ⟨g, hg, hp⟩ := Model.isAccepted_letters.exists_compiled 0
  have hclean := Model.isAccepted_letters.compileModel_unwarned (c := .beside)
    (by decide +kernel) (Config.isBroken_beside _) rfl rfl
    (Model.unreachable_eq_nil (by decide +kernel)) leftRecursive_letters (by decide +kernel)
  obtain ⟨v, w, hparse, hother, hs, hne⟩ := exists_parse_letters
  exact ⟨g, v, w, hclean, output?_compileModel hg, hp, hparse, hs, hother, hne⟩

end GrammarKit
