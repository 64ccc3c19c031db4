import GrammarKit.Notation.Writer
import GrammarKit.Notation.Reader

/-!
# Reading lexemes whatever the layout

In front of a lexeme, blanks and comments are passed over, and no lexeme is taken for one. So a
reader of one lexeme finds it in any text that lays it out, and leaves a text that lays out what is
behind.

* `trivia_append`: blanks and comments are passed over.
* `Laid.trivia_cons`: then the first lexeme stands in front.
* **`Reads`**, `Refuses`: what a reader does on all texts that lay out a row of lexemes, with a lemma
  per combinator.
* `reads_word`, `reads_keyword`, `reads_sign`, `reads_quoted`, `reads_slashed`: the lexemes.
-/

namespace GrammarKit.Notation

open Text

/-! ## Blanks and comments -/

theorem trivia_cons_of_isBlank {c : Char} (h : isBlank c = true) (s : List Char) :
    trivia (c :: s) = trivia s := by
  rw [trivia.eq_def]
  simp [h]

theorem restOfLine?_append {text : List Char} (hfeed : '\n' ∉ text) (hreturn : '\r' ∉ text)
    (s : List Char) : restOfLine? (text ++ '\n' :: s) = some (text, '\n' :: s) := by
  induction text with
  | nil => rfl
  | cons c text ih =>
    rw [List.mem_cons, not_or] at hfeed hreturn
    rw [List.cons_append, restOfLine?.eq_def]
    simp only
    rw [if_neg (Ne.symm hfeed.1), if_neg (Ne.symm hreturn.1), ih hfeed.2 hreturn.2]
    rfl

theorem trivia_comment {text : List Char} (hslash : text.head? ≠ some '/') (hfeed : '\n' ∉ text)
    (hreturn : '\r' ∉ text) (s : List Char) :
    trivia ('/' :: '/' :: (text ++ '\n' :: s)) = trivia s := by
  have hhead : (text ++ '\n' :: s).head? ≠ some '/' := by
    cases text with
    | nil => exact fun h => by cases h
    | cons c text => exact hslash
  rw [trivia.eq_def]
  simp only [show isBlank '/' = false from by decide, Bool.false_eq_true, if_false, if_neg hhead]
  split
  · rename_i rest hrest
    rw [restOfLine?_append hfeed hreturn] at hrest
    cases hrest
    exact trivia_cons_of_isBlank (by decide) s
  · rename_i hrest
    rw [restOfLine?_append hfeed hreturn] at hrest
    cases hrest

/-- **Blanks and comments are passed over.** -/
theorem trivia_append {g : List Char} (hg : IsGap g) (s : List Char) :
    trivia (g ++ s) = trivia s := by
  induction hg with
  | nil => rfl
  | blank hc _ ih => rw [List.cons_append, trivia_cons_of_isBlank hc, ih]
  | comment hslash hfeed hreturn _ ih =>
    rw [List.cons_append, List.cons_append, List.append_assoc, List.cons_append,
      trivia_comment hslash hfeed hreturn, ih]

theorem trivia_cons_of_ne {c : Char} (hblank : isBlank c = false) (hslash : c ≠ '/')
    (s : List Char) : trivia (c :: s) = c :: s := by
  rw [trivia.eq_def]
  simp only [hblank, Bool.false_eq_true, if_false]
  split
  · exact absurd rfl hslash
  · rfl

theorem trivia_slash {c : Char} (hc : c ≠ '/') (s : List Char) :
    trivia ('/' :: c :: s) = '/' :: c :: s := by
  rw [trivia.eq_def]
  simp only [show isBlank '/' = false from by decide, Bool.false_eq_true, if_false]
  split
  · rename_i heq
    exact absurd (List.cons.inj heq).1 hc
  · rfl

theorem trivia_docLine (s : List Char) : trivia ('/' :: '/' :: '/' :: s) = '/' :: '/' :: '/' :: s := by
  rw [trivia.eq_def]
  simp [show isBlank '/' = false from by decide]

/-! ## Lexemes in front -/

/-- The lexeme is not taken for a blank or a comment. -/
def Lexeme.IsSolid (l : Lexeme) : Prop := ∀ s, trivia (l.text ++ s) = l.text ++ s

theorem exists_identifier {name : String} (h : isIdentifier name = true) :
    ∃ c s, name.toList = c :: s ∧ isIdentifierStart c = true ∧ s.all isIdentifierPart = true := by
  rw [isIdentifier] at h
  cases hname : name.toList with
  | nil => rw [hname] at h; cases h
  | cons c s =>
    rw [hname] at h
    obtain ⟨hc, hs⟩ := Bool.and_eq_true_iff.1 h
    exact ⟨c, s, rfl, hc, hs⟩

/-- The characters of names are none of the notation's signs. -/
theorem ne_of_isIdentifierStart {c d : Char} (hc : isIdentifierStart c = true)
    (hd : isIdentifierStart d = false) : c ≠ d := by
  rintro rfl
  rw [hc] at hd
  cases hd

theorem isBlank_of_isIdentifierStart {c : Char} (h : isIdentifierStart c = true) :
    isBlank c = false := by
  have hne (d : Char) (hd : isIdentifierStart d = false) : (c == d) = false :=
    beq_eq_false_iff_ne.2 (ne_of_isIdentifierStart h hd)
  simp only [isBlank, hne ' ' (by decide), hne '\t' (by decide), hne '\r' (by decide),
    hne '\n' (by decide), Bool.or_self]

namespace Lexeme

theorem isSolid_word {name : String} (h : isIdentifier name = true) : (word name).IsSolid := by
  obtain ⟨c, t, hname, hc, -⟩ := exists_identifier h
  intro s
  rw [text, hname]
  exact trivia_cons_of_ne (isBlank_of_isIdentifierStart hc) (ne_of_isIdentifierStart hc (by decide)) _

theorem isSolid_sign (c : Sign) : (sign c).IsSolid := by
  intro s
  cases c <;> exact trivia_cons_of_ne (by decide) (by decide) s

theorem isSolid_quoted (t : String) : (quoted t).IsSolid :=
  fun _ => trivia_cons_of_ne (by decide) (by decide) _

theorem isSolid_slashed {source : String} (h : source ≠ "") : (slashed source).IsSolid := by
  intro s
  cases hsource : source.toList with
  | nil => exact absurd (String.toList_eq_nil_iff.1 hsource) h
  | cons c t =>
    rw [text, hsource, List.flatMap_cons, slashedChar]
    split
    · exact trivia_slash (by decide) _
    · rename_i hc
      exact trivia_slash hc _

theorem isSolid_line (t : List Char) : (line t).IsSolid := fun _ => trivia_docLine _

end Lexeme

/-- Behind blanks and comments stands the first lexeme. -/
theorem Laid.trivia_cons {prev : Option Lexeme} {l : Lexeme} {ls : List Lexeme} {s : List Char}
    (h : Laid prev (l :: ls) s) (hl : l.IsSolid) :
    ∃ s', trivia s = l.text ++ s' ∧ Laid (some l) ls s' := by
  cases h with
  | cons hbetween hrest => exact ⟨_, by rw [trivia_append hbetween.isGap, hl], hrest⟩

/-! ## Readers of lexemes -/

/-- The text does not go on with a character of a name. -/
def EndsWord (s : List Char) : Prop := ∀ c, s.head? = some c → isIdentifierPart c = false

theorem IsGap.endsWord {g s : List Char} (hg : IsGap g) (hs : g = [] → EndsWord s) :
    EndsWord (g ++ s) := by
  cases hg with
  | nil => exact hs rfl
  | @blank c g hc =>
    intro d hd
    cases hd
    simp only [isBlank, Bool.or_eq_true, beq_iff_eq] at hc
    rcases hc with ((rfl | rfl) | rfl) | rfl <;> decide
  | comment =>
    intro d hd
    cases hd
    decide

/-- **A word that is laid out has an end.** -/
theorem Laid.endsWord {w : String} {ls : List Lexeme} {s : List Char}
    (h : Laid (some (.word w)) ls s) : EndsWord s := by
  cases h with
  | nil hg =>
    rw [← List.append_nil s]
    exact hg.endsWord fun _ c hc => by cases hc
  | @cons _ l ls g s hbetween =>
    refine hbetween.isGap.endsWord fun hnil c hc => ?_
    cases l with
    | word x => exact absurd hnil (hbetween.apart w x rfl rfl)
    | sign d => cases d <;> cases hc <;> decide
    | quoted | slashed | line => cases hc; decide

section Readers

variable {α β : Type} {r : Reader α} {ls rest : List Lexeme} {a : α}

/-- **The reader reads lexemes in front of others**, however they are laid out. -/
def Reads (r : Reader α) (ls rest : List Lexeme) (a : α) : Prop :=
  ∀ ⦃prev s⦄, Laid prev (ls ++ rest) s → ∃ prev' s', r s = .ok (a, s') ∧ Laid prev' rest s'

/-- The reader lets something else be tried, however the lexemes are laid out. -/
def Refuses (r : Reader α) (rest : List Lexeme) : Prop :=
  ∀ ⦃prev s⦄, Laid prev rest s → ∃ f, r s = .error f ∧ f.committed = false

theorem ok_bind (a : α) (f : α → Except Failure β) : (Except.ok a >>= f) = f a := rfl

theorem error_bind (e : Failure) (f : α → Except Failure β) : (Except.error e >>= f) = .error e := rfl

/-- The reader of a lexeme finds it behind blanks and comments. -/
theorem Reads.of_text {l : Lexeme} (hl : l.IsSolid)
    (h : ∀ s, Laid (some l) rest s → r (l.text ++ s) = .ok (a, s)) :
    Reads (lexeme r) [l] rest a := by
  intro prev s hs
  obtain ⟨s', htrivia, hrest⟩ := hs.trivia_cons hl
  exact ⟨_, s', by rw [lexeme, htrivia, h s' hrest], hrest⟩

theorem Refuses.of_text {l : Lexeme} (hl : l.IsSolid)
    (h : ∀ s, ∃ f, r (l.text ++ s) = .error f ∧ f.committed = false) :
    Refuses (lexeme r) (l :: rest) := by
  intro prev s hs
  obtain ⟨s', htrivia, -⟩ := hs.trivia_cons hl
  obtain ⟨f, hf, hcommitted⟩ := h s'
  exact ⟨f, by rw [lexeme, htrivia, hf], hcommitted⟩

theorem Reads.hinting (h : Reads r ls rest a) (hints : List Hint) :
    Reads (r.hinting hints) ls rest a := by
  intro prev s hs
  obtain ⟨prev', s', hr, hrest⟩ := h hs
  exact ⟨prev', s', by rw [Reader.hinting, hr]; rfl, hrest⟩

theorem Reads.orCommit (h : Reads r ls rest a) : Reads r.orCommit ls rest a := by
  intro prev s hs
  obtain ⟨prev', s', hr, hrest⟩ := h hs
  exact ⟨prev', s', by rw [Reader.orCommit, hr]; rfl, hrest⟩

theorem Reads.optional (h : Reads r ls rest a) : Reads r.optional ls rest (some a) := by
  intro prev s hs
  obtain ⟨prev', s', hr, hrest⟩ := h hs
  exact ⟨prev', s', by rw [Reader.optional, hr], hrest⟩

theorem Refuses.optional (h : Refuses r rest) : Reads r.optional [] rest none := by
  intro prev s hs
  obtain ⟨f, hf, hcommitted⟩ := h hs
  exact ⟨prev, s, by simp [Reader.optional, hf, hcommitted], hs⟩

/-- What is behind some lexemes is laid out as well. -/
theorem Laid.behind {prev : Option Lexeme} {s : List Char} (h : Laid prev (ls ++ rest) s) :
    ∃ prev' s', Laid prev' rest s' ∧ s'.length ≤ s.length := by
  induction ls generalizing prev s with
  | nil => exact ⟨prev, s, h, Nat.le_refl _⟩
  | cons l ls ih =>
    cases h with
    | cons hbetween htail =>
      obtain ⟨prev', s', hrest, hle⟩ := ih htail
      refine ⟨prev', s', hrest, ?_⟩
      rw [List.length_append, List.length_append]
      omega

/-- A text has a character for each piece that starts with a lexeme. -/
theorem Laid.length_le {prev : Option Lexeme} {s : List Char} {lexemes : α → List Lexeme}
    {as : List α} (h : Laid prev (as.flatMap lexemes ++ rest) s)
    (hstart : ∀ a ∈ as, ∃ l ls, lexemes a = l :: ls ∧ l.text ≠ []) : as.length ≤ s.length := by
  induction as generalizing prev s with
  | nil => exact Nat.zero_le _
  | cons a as ih =>
    obtain ⟨⟨l, ls, hlexemes, hl⟩, hstart⟩ := List.forall_mem_cons.1 hstart
    rw [List.flatMap_cons, hlexemes, List.cons_append, List.cons_append, List.append_assoc] at h
    cases h with
    | cons hbetween htail =>
      obtain ⟨prev', s', hrest, hle⟩ := htail.behind
      have hpos := List.length_pos_iff.2 hl
      have hle' := ih hrest hstart
      rw [List.length_cons, List.length_append, List.length_append]
      omega

/-- **What is read again and again**, as often as there is something to read. -/
theorem Reads.many {lexemes : α → List Lexeme} {as : List α}
    (h : ∀ front a back, as = front ++ a :: back →
      Reads r (lexemes a) (back.flatMap lexemes ++ rest) a)
    (hrest : Refuses r rest)
    (hstart : ∀ a ∈ as, ∃ l ls, lexemes a = l :: ls ∧ l.text ≠ []) :
    Reads (fun s => Reader.many r s.length s) (as.flatMap lexemes) rest as := by
  have htimes {n : Nat} (hn : as.length ≤ n) :
      Reads (Reader.many r n) (as.flatMap lexemes) rest as := by
    clear hstart
    induction as generalizing n with
    | nil =>
      intro prev s hs
      cases n with
      | zero => exact ⟨prev, s, rfl, hs⟩
      | succ n =>
        obtain ⟨f, hf, hcommitted⟩ := hrest hs
        exact ⟨prev, s, by simp [Reader.many, hf, hcommitted], hs⟩
    | cons a as ih =>
      obtain ⟨n, rfl⟩ : ∃ k, n = k + 1 := ⟨n - 1, by rw [List.length_cons] at hn; omega⟩
      intro prev s hs
      rw [List.flatMap_cons, List.append_assoc] at hs
      obtain ⟨prev', s', hr, hs'⟩ := h [] a as rfl hs
      have htail := ih (fun front x back hsplit => h (a :: front) x back (by rw [hsplit]; rfl))
        (Nat.le_of_succ_le_succ hn)
      obtain ⟨prev'', s'', hmany, hs''⟩ := htail hs'
      refine ⟨prev'', s'', ?_, hs''⟩
      rw [Reader.many, hr]
      simp only [hmany]
      rfl
  exact fun _ _ hs => htimes (hs.length_le hstart) hs

end Readers

/-! ## Words and signs -/

section Lexemes

variable {rest : List Lexeme}

theorem takeWhile_name {s t : List Char} (hs : s.all isIdentifierPart = true) (ht : EndsWord t) :
    (s ++ t).takeWhile isIdentifierPart = s ∧ (s ++ t).dropWhile isIdentifierPart = t := by
  have hall : ∀ c ∈ s, isIdentifierPart c = true := List.all_eq_true.1 hs
  have htake : t.takeWhile isIdentifierPart = [] ∧ t.dropWhile isIdentifierPart = t := by
    cases t with
    | nil => exact ⟨rfl, rfl⟩
    | cons c t =>
      have hc := ht c rfl
      exact ⟨List.takeWhile_cons_of_neg (by simp [hc]), List.dropWhile_cons_of_neg (by simp [hc])⟩
  rw [List.takeWhile_append_of_pos hall, List.dropWhile_append_of_pos hall, htake.1, htake.2,
    List.append_nil]
  exact ⟨rfl, rfl⟩

/-- **A name is read as far as it goes.** -/
theorem reads_word {w : String} (hw : isIdentifier w = true) :
    Reads (lexeme word) [.word w] rest w := by
  refine .of_text (Lexeme.isSolid_word hw) fun s hs => ?_
  obtain ⟨c, t, hname, hc, ht⟩ := exists_identifier hw
  obtain ⟨htake, hdrop⟩ := takeWhile_name ht hs.endsWord
  rw [Lexeme.text, hname, List.cons_append, word, if_pos hc, htake, hdrop, ← hname,
    String.ofList_toList]

theorem dropWord?_append (w s : List Char) : dropWord? w (w ++ s) = some s := by
  induction w with
  | nil => rfl
  | cons c w ih => rw [List.cons_append, dropWord?, if_pos rfl, ih]

/-- A key word is read where it stands. -/
theorem reads_keyword {w : String} (hw : isIdentifier w = true) :
    Reads (lexeme (keyword w)) [.word w] rest () := by
  refine .of_text (Lexeme.isSolid_word hw) fun s hs => ?_
  have hend : (s.head?.map isIdentifierPart).getD false = false := by
    cases hhead : s.head? with
    | none => rfl
    | some c => exact hs.endsWord c hhead
  rw [Lexeme.text, keyword, dropWord?_append]
  simp only
  rw [hend]
  rfl

theorem reads_sign (c : Sign) : Reads (lexeme (sign c.char)) [.sign c] rest () :=
  .of_text (Lexeme.isSolid_sign c) fun s _ => by
    rw [Lexeme.text, List.singleton_append, sign, if_pos rfl]

theorem refuses_sign {c d : Sign} (h : d ≠ c) : Refuses (lexeme (sign c.char)) (.sign d :: rest) := by
  have hchar : d.char ≠ c.char := by
    cases c <;> cases d <;> first | exact absurd rfl h | decide
  refine .of_text (Lexeme.isSolid_sign d) fun s => ⟨{ rest := d.char :: s }, ?_, rfl⟩
  rw [Lexeme.text, List.singleton_append, sign, if_neg hchar]

theorem refuses_sign_word {c : Sign} {w : String} (hw : isIdentifier w = true) :
    Refuses (lexeme (sign c.char)) (.word w :: rest) := by
  obtain ⟨d, t, hname, hd, -⟩ := exists_identifier hw
  have hchar : d ≠ c.char := ne_of_isIdentifierStart hd (by cases c <;> decide)
  refine .of_text (Lexeme.isSolid_word hw) fun s => ⟨{ rest := d :: (t ++ s) }, ?_, rfl⟩
  rw [Lexeme.text, hname, List.cons_append, sign, if_neg hchar]

theorem refuses_word_sign (c : Sign) : Refuses (lexeme word) (.sign c :: rest) := by
  have hstart : isIdentifierStart c.char = false := by cases c <;> decide
  refine .of_text (Lexeme.isSolid_sign c) fun s => ⟨{ rest := c.char :: s }, ?_, rfl⟩
  rw [Lexeme.text, List.singleton_append, word, hstart]
  rfl

/-! ## Texts -/

theorem length_quotedChar_pos (c : Char) : 0 < (quotedChar c).length := by
  rw [quotedChar]
  split <;> exact Nat.succ_pos _

theorem length_slashedChar_pos (c : Char) : 0 < (slashedChar c).length := by
  rw [slashedChar]
  split <;> exact Nat.succ_pos _

theorem quotedBody_quoted (cs s : List Char) {n : Nat} (hn : cs.length < n) :
    quotedBody n (cs.flatMap quotedChar ++ '"' :: s) = .ok (cs, s) := by
  induction cs generalizing n with
  | nil =>
    obtain ⟨n, rfl⟩ := Nat.exists_eq_succ_of_ne_zero (Nat.pos_iff_ne_zero.1 hn)
    rfl
  | cons c cs ih =>
    obtain ⟨n, rfl⟩ : ∃ k, n = k + 1 := ⟨n - 1, by omega⟩
    have htail := ih (Nat.lt_of_succ_lt_succ hn)
    rw [List.flatMap_cons, List.append_assoc, quotedChar]
    by_cases hc : c = '"' ∨ c = '\\'
    · have hescape : Reader.orCommit escape (c :: (cs.flatMap quotedChar ++ '"' :: s)) =
          .ok (c, cs.flatMap quotedChar ++ '"' :: s) := by
        rcases hc with rfl | rfl <;> rfl
      rw [if_pos hc, List.cons_append, List.singleton_append, quotedBody, if_neg (by decide),
        if_pos rfl, hescape]
      show (quotedBody n (cs.flatMap quotedChar ++ '"' :: s) >>= _) = _
      rw [htail]
      rfl
    · obtain ⟨hquote, hslash⟩ := not_or.1 hc
      rw [if_neg hc, List.singleton_append, quotedBody, if_neg hquote, if_neg hslash, htail]
      rfl

/-- **A text is read as it is written between quotes.** -/
theorem reads_quoted (t : String) : Reads (lexeme quoted) [.quoted t] rest t := by
  refine .of_text (Lexeme.isSolid_quoted t) fun s _ => ?_
  have hlength := length_le_flatMap fun c (_ : c ∈ t.toList) => length_quotedChar_pos c
  have hbody := quotedBody_quoted t.toList s
    (n := (t.toList.flatMap quotedChar ++ '"' :: s).length + 1) (by
      rw [List.length_append]
      omega)
  have htext : (Lexeme.quoted t).text ++ s = '"' :: (t.toList.flatMap quotedChar ++ '"' :: s) := by
    simp [Lexeme.text]
  rw [htext, quoted]
  show (quotedBody _ _ >>= _) = _
  rw [hbody]
  exact congrArg (fun t => Except.ok (t, s)) String.ofList_toList

theorem slashedBody_pair {d : Char} (hd : d ≠ '/') (n : Nat) (s : List Char) :
    slashedBody (n + 1) ('\\' :: d :: s) =
      (slashedBody n s).map fun (cs, s) => ('\\' :: d :: cs, s) := by
  rw [slashedBody, if_neg (by decide), if_neg (by decide), if_pos rfl]
  simp only
  rw [if_neg hd]
  cases slashedBody n s <;> rfl

theorem slashedBody_char {c : Char} (hslash : c ≠ '\\') (hfeed : c ≠ '\n') (n : Nat)
    (s : List Char) :
    slashedBody (n + 1) (slashedChar c ++ s) =
      (slashedBody n s).map fun (cs, s) => (c :: cs, s) := by
  rw [slashedChar]
  by_cases hc : c = '/'
  · subst hc
    rw [if_pos rfl, List.cons_append, List.singleton_append, slashedBody, if_neg (by decide),
      if_neg (by decide), if_pos rfl]
    cases slashedBody n s <;> rfl
  · rw [if_neg hc, List.singleton_append, slashedBody.eq_def]
    simp only
    rw [if_neg hfeed, if_neg hc, if_neg hslash]
    cases slashedBody n s <;> rfl

theorem slashedBody_slashed {cs : List Char} (hcs : isSlashable cs = true) (s : List Char) {n : Nat}
    (hn : cs.length < n) : slashedBody n (cs.flatMap slashedChar ++ '/' :: s) = .ok (cs, s) := by
  fun_induction isSlashable cs generalizing n with
  | case1 =>
    obtain ⟨n, rfl⟩ := Nat.exists_eq_succ_of_ne_zero (Nat.pos_iff_ne_zero.1 hn)
    rfl
  | case2 c =>
    obtain ⟨n, rfl⟩ : ∃ k, n = k + 2 := ⟨n - 2, by rw [List.length_singleton] at hn; omega⟩
    obtain ⟨hslash, hfeed⟩ : c ≠ '\\' ∧ c ≠ '\n' := by simpa using hcs
    rw [List.flatMap_singleton, slashedBody_char hslash hfeed]
    rfl
  | case3 d t ih =>
    obtain ⟨hd, ht⟩ : d ≠ '/' ∧ isSlashable t = true := by simpa using hcs
    obtain ⟨n, rfl⟩ : ∃ k, n = k + 1 := ⟨n - 1, by omega⟩
    have hchars : ('\\' :: d :: t).flatMap slashedChar ++ '/' :: s =
        '\\' :: d :: (t.flatMap slashedChar ++ '/' :: s) := by
      simp [slashedChar, hd]
    rw [hchars, slashedBody_pair hd, ih ht (by simp only [List.length_cons] at hn; omega)]
    rfl
  | case4 c d t hc ih =>
    obtain ⟨hfeed, ht⟩ : c ≠ '\n' ∧ isSlashable (d :: t) = true := by simpa using hcs
    obtain ⟨n, rfl⟩ : ∃ k, n = k + 1 := ⟨n - 1, by omega⟩
    rw [List.flatMap_cons, List.append_assoc, slashedBody_char hc hfeed,
      ih ht (Nat.lt_of_succ_lt_succ hn)]
    rfl

/-- **A regular expression is read as it is written between slashes.** -/
theorem reads_slashed {source : String} (hne : source ≠ "")
    (h : isSlashable source.toList = true) : Reads (lexeme slashed) [.slashed source] rest source := by
  refine .of_text (Lexeme.isSolid_slashed hne) fun s _ => ?_
  have hlength := length_le_flatMap fun c (_ : c ∈ source.toList) => length_slashedChar_pos c
  have hbody := slashedBody_slashed h s
    (n := (source.toList.flatMap slashedChar ++ '/' :: s).length + 1) (by
      rw [List.length_append]
      omega)
  have htext : (Lexeme.slashed source).text ++ s =
      '/' :: (source.toList.flatMap slashedChar ++ '/' :: s) := by
    simp [Lexeme.text]
  rw [htext, slashed]
  show (slashedBody _ _ >>= _) = _
  rw [hbody]
  exact congrArg (fun t => Except.ok (t, s)) String.ofList_toList

end Lexemes

end GrammarKit.Notation
