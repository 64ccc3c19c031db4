import GrammarKit.Proofs.Notation.Reading
import GrammarKit.Proofs.Regex.Lexical
import Mathlib.Data.List.TakeWhile

/-!
# What is read is spelled that way

What a reader takes off the front of a text is a row of lexemes with blanks and comments between them.
So names are identifiers wherever they stand.

* `Skips`, `Lexeme.Spells`, `Spelled`: blanks and comments, the ways to write a lexeme, and rows of
  lexemes at the front of a text.
* **`Yields`**: a reader takes only what spells its lexemes, with a lemma per combinator.
* `yields_header`, `yields_definition`: the parts of a model.
-/

namespace GrammarKit.Notation

open Text

/-! ## Spellings -/

/-- A line ends in front of the text. -/
def EndsLine (s : List Char) : Prop := s = [] ∨ (∃ t, s = '\n' :: t) ∨ ∃ t, s = '\r' :: '\n' :: t

/-- **Blanks and comments** may be passed over to get to the text `t`. A comment ends with its line
and does not start with a third slash. -/
inductive Skips : List Char → List Char → Prop
  | refl (s : List Char) : Skips s s
  | blank {c : Char} {s t : List Char} : isBlank c = true → Skips s t → Skips (c :: s) t
  | comment {text s t : List Char} : text.head? ≠ some '/' → '\n' ∉ text → '\r' ∉ text →
    EndsLine s → Skips s t → Skips ('/' :: '/' :: (text ++ s)) t

/-- Blanks and comments are passed over as far as they go. -/
def SkipsAll (s t : List Char) : Prop := Skips s t ∧ ∀ u, Skips t u → u = t

/-- **The ways to write a text between quotes.** -/
inductive SpellsQuoted : List Char → List Char → Prop
  | nil : SpellsQuoted [] []
  | plain {c : Char} {cs w : List Char} : c ≠ '"' → c ≠ '\\' → SpellsQuoted cs w →
    SpellsQuoted (c :: cs) (c :: w)
  | short {c d : Char} {cs w : List Char} : shortEscape? c = some d → SpellsQuoted cs w →
    SpellsQuoted (d :: cs) ('\\' :: c :: w)
  | number {digits : List Char} {d : Char} {cs w : List Char} : digits ≠ [] →
    digits.length ≤ 6 → (∀ c ∈ digits, (hexValue? c).isSome = true) →
    namedChar? digits = some d → SpellsQuoted cs w →
    SpellsQuoted (d :: cs) ('\\' :: 'u' :: '\x7b' :: (digits ++ '\x7d' :: w))

/-- **The way to write a regular expression between slashes.** -/
inductive SpellsSlashed : List Char → List Char → Prop
  | nil : SpellsSlashed [] []
  | plain {c : Char} {cs w : List Char} : c ≠ '\n' → c ≠ '/' → c ≠ '\\' → SpellsSlashed cs w →
    SpellsSlashed (c :: cs) (c :: w)
  | slash {cs w : List Char} : SpellsSlashed cs w → SpellsSlashed ('/' :: cs) ('\\' :: '/' :: w)
  | pair {d : Char} {cs w : List Char} : d ≠ '/' → SpellsSlashed cs w →
    SpellsSlashed ('\\' :: d :: cs) ('\\' :: d :: w)

/-- **The ways to write a lexeme** in front of the text `t`. A word is as long as it can be, and a
line of a description lasts to the end of the line. -/
inductive Lexeme.Spells : Lexeme → List Char → List Char → Prop
  | word {name : String} {t : List Char} : isIdentifier name = true → EndsWord t →
    Spells (.word name) (name.toList ++ t) t
  | sign (c : Sign) (t : List Char) : Spells (.sign c) (c.char :: t) t
  | quoted {text : String} {w : List Char} (t : List Char) : SpellsQuoted text.toList w →
    Spells (.quoted text) ('"' :: (w ++ '"' :: t)) t
  | slashed {source : String} {w : List Char} (t : List Char) : SpellsSlashed source.toList w →
    Spells (.slashed source) ('/' :: (w ++ '/' :: t)) t
  | line {text t : List Char} : '\n' ∉ text → '\r' ∉ text → EndsLine t →
    Spells (.line (docText text)) ('/' :: '/' :: '/' :: (text ++ t)) t

/-- **A row of lexemes** stands in front of the text `t`. -/
inductive Spelled : List Lexeme → List Char → List Char → Prop
  | nil (s : List Char) : Spelled [] s s
  | cons {l : Lexeme} {ls : List Lexeme} {s s' u t : List Char} : SkipsAll s s' →
    l.Spells s' u → Spelled ls u t → Spelled (l :: ls) s t

variable {s t u : List Char} {ls rest : List Lexeme} {l : Lexeme}

/-! ## Blanks and comments -/

theorem Skips.trans (h : Skips s t) (h' : Skips t u) : Skips s u := by
  induction h with
  | refl s => exact h'
  | blank hc _ ih => exact .blank hc (ih h')
  | comment hslash hfeed hreturn hend _ ih => exact .comment hslash hfeed hreturn hend (ih h')

theorem Skips.suffix (h : Skips s t) : t <:+ s := by
  induction h with
  | refl s => exact List.suffix_refl s
  | blank _ _ ih => exact ih.trans (List.suffix_cons _ _)
  | @comment text s t _ _ _ _ _ ih =>
    exact ih.trans ((List.suffix_append text s).trans
      ((List.suffix_cons _ _).trans (List.suffix_cons _ _)))

theorem restOfLine?_of_endsLine {line rest : List Char} (hfeed : '\n' ∉ line)
    (hreturn : '\r' ∉ line) (hend : EndsLine rest) :
    restOfLine? (line ++ rest) = some (line, rest) := by
  induction line with
  | nil => rcases hend with rfl | ⟨t, rfl⟩ | ⟨t, rfl⟩ <;> rfl
  | cons c line ih =>
    rw [List.mem_cons, not_or] at hfeed hreturn
    rw [List.cons_append, restOfLine?.eq_def]
    simp only
    rw [if_neg (Ne.symm hfeed.1), if_neg (Ne.symm hreturn.1), ih hfeed.2 hreturn.2]
    rfl

theorem exists_of_restOfLine? {line rest : List Char} (h : restOfLine? s = some (line, rest)) :
    s = line ++ rest ∧ '\n' ∉ line ∧ '\r' ∉ line ∧ EndsLine rest := by
  induction s generalizing line rest with
  | nil =>
    cases h
    exact ⟨rfl, List.not_mem_nil, List.not_mem_nil, .inl rfl⟩
  | cons c s ih =>
    rw [restOfLine?.eq_def] at h
    simp only at h
    split at h
    · rename_i hc
      cases h
      exact ⟨rfl, List.not_mem_nil, List.not_mem_nil, .inr (.inl ⟨s, by rw [hc]⟩)⟩
    · split at h
      · rename_i hc
        split at h
        · rename_i t
          cases h
          exact ⟨rfl, List.not_mem_nil, List.not_mem_nil, .inr (.inr ⟨t, by rw [hc]⟩)⟩
        · cases h
      · rename_i hfeed hreturn
        obtain ⟨⟨line, rest⟩, hline, he⟩ := Option.map_eq_some_iff.1 h
        cases he
        obtain ⟨rfl, hnfeed, hnreturn, hend⟩ := ih hline
        exact ⟨rfl, by simp [Ne.symm hfeed, hnfeed], by simp [Ne.symm hreturn, hnreturn], hend⟩

/-- Where blanks and comments are passed over, all of them are in the end. -/
theorem Skips.trivia_eq (h : Skips s t) : trivia s = trivia t := by
  induction h with
  | refl s => rfl
  | blank hc _ ih => rw [trivia_cons_of_isBlank hc, ih]
  | @comment text s t hslash hfeed hreturn hend _ ih =>
    have hhead : (text ++ s).head? ≠ some '/' := by
      cases text with
      | nil => rcases hend with rfl | ⟨t, rfl⟩ | ⟨t, rfl⟩ <;> simp
      | cons c text => exact hslash
    rw [trivia.eq_def]
    simp only [show isBlank '/' = false from by decide, Bool.false_eq_true, if_false, if_neg hhead]
    split
    · rename_i rest hrest
      rw [restOfLine?_of_endsLine hfeed hreturn hend] at hrest
      cases hrest
      exact ih
    · rename_i hrest
      rw [restOfLine?_of_endsLine hfeed hreturn hend] at hrest
      cases hrest

theorem skips_trivia (s : List Char) : Skips s (trivia s) := by
  fun_induction trivia s with
  | case1 => exact .refl []
  | case2 c r hc ih => exact .blank hc ih
  | case3 | case5 | case6 => exact .refl _
  | case4 r hslash line rest hline _ ih =>
    obtain ⟨rfl, hfeed, hreturn, hend⟩ := exists_of_restOfLine? hline
    refine .comment (fun h => hslash ?_) hfeed hreturn hend ih
    rw [List.head?_append, h, Option.some_or]

/-- **All blanks and comments** are passed over up to one place. -/
theorem skipsAll_iff : SkipsAll s t ↔ t = trivia s := by
  constructor
  · rintro ⟨hskip, hall⟩
    rw [hskip.trivia_eq, hall _ (skips_trivia t)]
  · rintro rfl
    refine ⟨skips_trivia s, fun u hu => ?_⟩
    have htrivia : trivia s = trivia u := (skips_trivia s).trivia_eq.trans hu.trivia_eq
    have hsuffix : trivia s <:+ u := htrivia ▸ (skips_trivia u).suffix
    exact hu.suffix.eq_of_length_le hsuffix.length_le

/-! ## Rows of lexemes -/

theorem Spelled.append (h : Spelled ls s t) (h' : Spelled rest t u) :
    Spelled (ls ++ rest) s u := by
  induction h with
  | nil s => exact h'
  | cons hskip hl _ ih => exact .cons hskip hl (ih h')

/-- A lexeme stands behind the blanks and comments in front of it. -/
theorem Spelled.of_trivia (h : l.Spells (trivia s) t) : Spelled [l] s t :=
  .cons (skipsAll_iff.2 rfl) h (.nil t)

/-- Blanks and comments in front of a row belong to it. -/
theorem Spelled.of_skips (h : Spelled ls s' t) (hls : ls ≠ []) (hskip : Skips s s') :
    Spelled ls s t := by
  cases h with
  | nil => exact absurd rfl hls
  | cons hall hl hrest =>
    refine .cons (skipsAll_iff.2 ?_) hl hrest
    rw [hskip.trivia_eq]
    exact skipsAll_iff.1 hall

/-- Blanks and comments in front of a row, be it empty, belong to it or follow it. -/
theorem Spelled.exists_of_skips (h : Spelled ls s' t) (hskip : Skips s s') :
    ∃ u, Spelled ls s u ∧ Skips u t := by
  cases h with
  | nil => exact ⟨s, .nil s, hskip⟩
  | cons hall hl hrest =>
    exact ⟨t, (Spelled.cons hall hl hrest).of_skips (List.cons_ne_nil _ _) hskip, .refl t⟩

theorem Spelled.exists_spells (h : Spelled ls s t) (hl : l ∈ ls) : ∃ s t, l.Spells s t := by
  induction h with
  | nil s => cases hl
  | cons _ hspells _ ih =>
    rcases List.mem_cons.1 hl with rfl | hl
    · exact ⟨_, _, hspells⟩
    · exact ih hl

/-- **The words of a row are identifiers.** -/
theorem Spelled.isIdentifier (h : Spelled ls s t) {name : String} (hname : .word name ∈ ls) :
    isIdentifier name = true := by
  obtain ⟨s, t, hspells⟩ := h.exists_spells hname
  cases hspells
  assumption

theorem mem_of_mem_docText {c : Char} {line : List Char} (h : c ∈ docText line) : c ∈ line := by
  have hend {s : List Char} (hs : c ∈ trimEnd s) : c ∈ s := by
    rw [trimEnd, List.mem_reverse] at hs
    exact List.mem_reverse.1 ((List.dropWhile_suffix _).subset hs)
  unfold docText at h
  split at h
  · exact List.mem_cons_of_mem _ (hend h)
  · exact hend h

/-- The lines of a row are lines. -/
theorem Spelled.notMem_line (h : Spelled ls s t) {line : List Char} (hline : .line line ∈ ls) :
    '\n' ∉ line := by
  obtain ⟨s, t, hspells⟩ := h.exists_spells hline
  cases hspells with
  | line hfeed => exact fun h => hfeed (mem_of_mem_docText h)

/-! ## Readers -/

section Readers

variable {α β : Type} {r : Reader α} {lexemes : α → List Lexeme}

/-- **A reader takes only what spells the lexemes** of its value. -/
def Yields (r : Reader α) (lexemes : α → List Lexeme) : Prop :=
  ∀ ⦃s a t⦄, r s = .ok (a, t) → Spelled (lexemes a) s t

theorem exists_of_map_ok {ε : Type} {f : α → β} {x : Except ε α} {b : β}
    (h : x.map f = .ok b) : ∃ a, x = .ok a ∧ f a = b := by
  cases x with
  | error e => cases h
  | ok a =>
    cases h
    exact ⟨a, rfl, rfl⟩

/-- A reader with other failures takes the same. -/
theorem ok_of_mapError {f : Failure → Failure} {x : Except Failure β} {b : β}
    (h : x.mapError f = .ok b) : x = .ok b := by
  cases x with
  | error e => cases h
  | ok b' => exact h

theorem Yields.hinting (h : Yields r lexemes) (hints : List Hint) :
    Yields (r.hinting hints) lexemes := fun _ _ _ hr => h (ok_of_mapError hr)

theorem Yields.orCommit (h : Yields r lexemes) : Yields r.orCommit lexemes :=
  fun _ _ _ hr => h (ok_of_mapError hr)

theorem Yields.optional (h : Yields r lexemes) :
    Yields r.optional fun a => (a.map lexemes).getD [] := by
  intro s a t hr
  unfold Reader.optional at hr
  split at hr
  · rename_i hok
    cases hr
    exact h hok
  · split at hr
    · cases hr
    · cases hr
      exact .nil _

theorem Yields.many (h : Yields r lexemes) :
    Yields (fun s => Reader.many r s.length s) fun as => as.flatMap lexemes := by
  have hmany (n : Nat) {s t : List Char} {as : List α} (hr : Reader.many r n s = .ok (as, t)) :
      Spelled (as.flatMap lexemes) s t := by
    induction n generalizing s as with
    | zero =>
      cases hr
      exact .nil _
    | succ n ih =>
      rw [Reader.many] at hr
      split at hr
      · rename_i hok
        obtain ⟨⟨as', s'⟩, hrest, hr⟩ := bind_ok hr
        cases hr
        exact (h hok).append (ih hrest)
      · split at hr
        · cases hr
        · cases hr
          exact .nil _
  exact fun s as t hr => hmany s.length hr

/-- **A reader grants something** about its values. -/
def Grants (r : Reader α) (Q : α → Prop) : Prop := ∀ ⦃s a t⦄, r s = .ok (a, t) → Q a

theorem Grants.many {Q : α → Prop} (h : Grants r Q) (n : Nat) :
    Grants (Reader.many r n) fun as => ∀ a ∈ as, Q a := by
  induction n with
  | zero =>
    intro s as t hr
    cases hr
    simp
  | succ n ih =>
    intro s as t hr
    rw [Reader.many] at hr
    split at hr
    · rename_i hok
      obtain ⟨⟨as', s'⟩, hrest, hr⟩ := bind_ok hr
      cases hr
      exact List.forall_mem_cons.2 ⟨h hok, ih hrest⟩
    · split at hr
      · cases hr
      · cases hr
        simp

end Readers

/-! ## Lexemes -/

theorem eq_cons_of_sign {c : Char} {a : Unit} (h : Notation.sign c s = .ok (a, t)) :
    s = c :: t := by
  cases s with
  | nil => cases h
  | cons d s =>
    rw [Notation.sign] at h
    split at h
    · rename_i hd
      cases h
      rw [hd]
    · cases h

theorem yields_sign (c : Sign) : Yields (lexeme (sign c.char)) fun _ => [.sign c] := by
  intro s a t h
  refine .of_trivia ?_
  rw [eq_cons_of_sign h]
  exact .sign c t

theorem endsWord_dropWhile (s : List Char) : EndsWord (s.dropWhile isIdentifierPart) := by
  intro c hc
  have hhead := List.head?_dropWhile_not isIdentifierPart s
  rw [hc] at hhead
  simpa using hhead

theorem yields_word : Yields (lexeme word) fun name => [.word name] := by
  intro s name t h
  refine .of_trivia ?_
  unfold lexeme at h
  cases hs : trivia s with
  | nil =>
    rw [hs] at h
    cases h
  | cons c s' =>
    rw [hs, word] at h
    split at h
    · rename_i hc
      cases h
      have hspells : c :: s' = (String.ofList (c :: s'.takeWhile isIdentifierPart)).toList ++
          s'.dropWhile isIdentifierPart := by
        rw [String.toList_ofList, List.cons_append, List.takeWhile_append_dropWhile]
      have hname : isIdentifier (String.ofList (c :: s'.takeWhile isIdentifierPart)) = true := by
        rw [isIdentifier, String.toList_ofList]
        simp [hc, List.all_takeWhile]
      rw [hspells]
      exact .word hname (endsWord_dropWhile s')
    · cases h

theorem eq_append_of_dropWord? {w s t : List Char} (h : dropWord? w s = some t) : s = w ++ t := by
  induction w generalizing s with
  | nil =>
    cases h
    rfl
  | cons c w ih =>
    cases s with
    | nil => cases h
    | cons d s =>
      rw [dropWord?] at h
      split at h
      · rename_i hc
        rw [hc, ih h, List.cons_append]
      · cases h

theorem yields_keyword {w : String} (hw : isIdentifier w = true) :
    Yields (lexeme (keyword w)) fun _ => [.word w] := by
  intro s a t h
  refine .of_trivia ?_
  unfold lexeme keyword at h
  split at h
  · cases h
  · rename_i rest hrest
    split at h
    · cases h
    · rename_i hend
      cases h
      rw [eq_append_of_dropWord? hrest]
      refine .word hw fun c hc => ?_
      rw [hc] at hend
      simpa using hend

/-! ## Texts and regular expressions -/

theorem exists_of_codePoint {whole : List Char} {d : Char} (h : codePoint whole s = .ok (d, t)) :
    ∃ digits, s = '\x7b' :: (digits ++ '\x7d' :: t) ∧ digits ≠ [] ∧ digits.length ≤ 6 ∧
      (∀ c ∈ digits, (hexValue? c).isSome = true) ∧ namedChar? digits = some d := by
  cases s with
  | nil => cases h
  | cons c s =>
    simp only [codePoint] at h
    split at h
    · rename_i hc
      split at h
      · cases h
      · rename_i hne
        have hsplit := List.takeWhile_prefix (fun c => (hexValue? c).isSome) (l := s.take 6)
        have hs : s = (s.take 6).takeWhile (fun c => (hexValue? c).isSome) ++
            s.drop ((s.take 6).takeWhile fun c => (hexValue? c).isSome).length :=
          List.prefix_iff_eq_append.1 (hsplit.trans (List.take_prefix 6 s)) |>.symm
        split at h
        · rename_i d' t' hrest
          split at h
          · rename_i hd'
            split at h
            · rename_i hnamed
              cases h
              rw [hrest] at hs
              refine ⟨_, by rw [hc, ← hd', ← hs], hne, ?_, fun c hc => ?_, hnamed⟩
              · exact Nat.le_trans hsplit.length_le (List.length_take_le 6 s)
              · exact List.mem_takeWhile_imp (p := fun c => (hexValue? c).isSome) hc
            · cases h
          · cases h
        · cases h
    · cases h

theorem spellsQuoted_of_escape {d : Char} (h : escape s = .ok (d, t)) {cs w : List Char}
    (hw : SpellsQuoted cs w) (ht : t = w ++ u) :
    ∃ w', SpellsQuoted (d :: cs) ('\\' :: w') ∧ s = w' ++ u := by
  have hescaped : escape.escaped s = .ok (d, t) := ok_of_mapError h
  cases s with
  | nil => cases hescaped
  | cons c s =>
    simp only [escape.escaped] at hescaped
    split at hescaped
    · rename_i hshort
      cases hescaped
      exact ⟨c :: w, .short hshort hw, by rw [ht, List.cons_append]⟩
    · split at hescaped
      · rename_i hc
        obtain ⟨digits, rfl, hne, hlength, hhex, hnamed⟩ := exists_of_codePoint hescaped
        exact ⟨_, .number hne hlength hhex hnamed hw, by simp [hc, ht]⟩
      · cases hescaped

theorem spellsQuoted_of_quotedBody {n : Nat} {cs : List Char} (h : quotedBody n s = .ok (cs, t)) :
    ∃ w, SpellsQuoted cs w ∧ s = w ++ '"' :: t := by
  induction n generalizing s cs with
  | zero => cases h
  | succ n ih =>
    cases s with
    | nil => cases h
    | cons c s =>
      rw [quotedBody] at h
      split at h
      · rename_i hc
        cases h
        exact ⟨[], .nil, by rw [hc]; rfl⟩
      · rename_i hquote
        split at h
        · rename_i hc
          obtain ⟨⟨d, s'⟩, hescape, h⟩ := bind_ok h
          obtain ⟨⟨cs', t'⟩, hbody, h⟩ := bind_ok h
          cases h
          obtain ⟨w, hw, hs'⟩ := ih hbody
          obtain ⟨w', hw', rfl⟩ := spellsQuoted_of_escape (ok_of_mapError hescape) hw hs'
          exact ⟨_, hw', by rw [hc]; rfl⟩
        · rename_i hslash
          obtain ⟨⟨cs', t'⟩, hbody, h⟩ := bind_ok h
          cases h
          obtain ⟨w, hw, rfl⟩ := ih hbody
          exact ⟨c :: w, .plain hquote hslash hw, rfl⟩

theorem spellsSlashed_of_slashedBody {n : Nat} {cs : List Char}
    (h : slashedBody n s = .ok (cs, t)) : ∃ w, SpellsSlashed cs w ∧ s = w ++ '/' :: t := by
  induction n generalizing s cs with
  | zero => cases h
  | succ n ih =>
    cases s with
    | nil => cases h
    | cons c s =>
      rw [slashedBody.eq_def] at h
      simp only at h
      split at h
      · cases h
      · rename_i hfeed
        split at h
        · rename_i hc
          cases h
          exact ⟨[], .nil, by rw [hc]; rfl⟩
        · rename_i hslash
          split at h
          · rename_i hback
            cases s with
            | nil => cases h
            | cons d s =>
              obtain ⟨⟨cs', t'⟩, hbody, h⟩ := bind_ok h
              cases h
              obtain ⟨w, hw, rfl⟩ := ih hbody
              by_cases hd : d = '/'
              · exact ⟨_, by rw [if_pos hd, hd]; exact .slash hw, by rw [hback, hd]; rfl⟩
              · exact ⟨_, by rw [if_neg hd, hback]; exact .pair hd hw, by rw [hback]; rfl⟩
          · rename_i hback
            obtain ⟨⟨cs', t'⟩, hbody, h⟩ := bind_ok h
            cases h
            obtain ⟨w, hw, rfl⟩ := ih hbody
            exact ⟨c :: w, .plain hfeed hslash hback hw, rfl⟩

theorem spells_quoted {text : String} (h : quoted s = .ok (text, t)) :
    (Lexeme.quoted text).Spells s t := by
  obtain ⟨⟨_, s'⟩, hsign, h⟩ := bind_ok h
  obtain ⟨⟨cs, s''⟩, hbody, h⟩ := bind_ok h
  cases h
  obtain ⟨w, hw, rfl⟩ := spellsQuoted_of_quotedBody hbody
  rw [eq_cons_of_sign hsign]
  exact .quoted _ (by rwa [String.toList_ofList])

theorem spells_slashed {source : String} (h : slashed s = .ok (source, t)) :
    (Lexeme.slashed source).Spells s t := by
  obtain ⟨⟨_, s'⟩, hsign, h⟩ := bind_ok h
  obtain ⟨⟨cs, s''⟩, hbody, h⟩ := bind_ok h
  cases h
  obtain ⟨w, hw, rfl⟩ := spellsSlashed_of_slashedBody hbody
  rw [eq_cons_of_sign hsign]
  exact .slashed _ (by rwa [String.toList_ofList])

theorem yields_quoted : Yields (lexeme quoted) fun text => [.quoted text] :=
  fun _ _ _ h => .of_trivia (spells_quoted h)

theorem yields_pattern : Yields (lexeme pattern) fun p => [p.lexeme] := by
  intro s p t h
  refine .of_trivia ?_
  unfold lexeme at h
  generalize trivia s = s at h ⊢
  unfold pattern at h
  split at h
  · obtain ⟨⟨text, s'⟩, hquoted, he⟩ := exists_of_map_ok h
    cases he
    exact spells_quoted hquoted
  · obtain ⟨⟨source, s'⟩, hslashed, he⟩ := exists_of_map_ok h
    cases he
    exact spells_slashed hslashed

/-! ## The header -/

/-- The lexemes of a header. -/
def Header.lexemes (head : Header) : List Lexeme :=
  [.word "grammar", .word head.name] ++
    (head.version.map fun version => [.word "version", .quoted version]).getD [] ++
    [.word "start", .word head.start, .sign .semicolon]

theorem yields_semicolon : Yields semicolon fun _ => [.sign .semicolon] :=
  ((yields_sign .semicolon).orCommit).hinting _

theorem yields_versionClause :
    Yields versionClause fun version => [.word "version", .quoted version] := by
  intro s version t h
  obtain ⟨⟨_, s₁⟩, hkeyword, h⟩ := bind_ok h
  exact (yields_keyword (by decide) hkeyword).append ((yields_quoted.orCommit).hinting _ h)

theorem yields_startClause : Yields startClause fun start => [.word "start", .word start] := by
  intro s start t h
  obtain ⟨⟨_, s₁⟩, hkeyword, h⟩ := bind_ok h
  exact (yields_keyword (by decide) hkeyword).append (yields_word h)

/-- **What is read as a header** is spelled that way. -/
theorem yields_header : Yields (lexeme header) Header.lexemes := by
  intro s head t h
  obtain ⟨⟨_, s₁⟩, hkeyword, h⟩ := bind_ok h
  obtain ⟨⟨name, s₂⟩, hname, h⟩ := bind_ok h
  obtain ⟨⟨version, s₃⟩, hversion, h⟩ := bind_ok h
  obtain ⟨⟨start, s₄⟩, hstart, h⟩ := bind_ok h
  obtain ⟨⟨_, s₅⟩, hsemicolon, h⟩ := bind_ok h
  cases h
  have hfront : Spelled [.word "grammar", .word name] s s₂ :=
    (yields_keyword (by decide) (ok_of_mapError hkeyword)).append
      ((yields_word.orCommit).hinting _ hname)
  have hback : Spelled [.word "start", .word start, .sign .semicolon] s₃ t :=
    ((yields_startClause.orCommit).hinting _ hstart).append (yields_semicolon hsemicolon)
  exact (hfront.append (yields_versionClause.optional hversion)).append hback

/-! ## Definitions -/

theorem yields_definitionName :
    Yields definitionName fun name => [.word name, .sign .equals] := by
  intro s name t h
  obtain ⟨⟨name, s₁⟩, hname, h⟩ := bind_ok (ok_of_mapError h)
  obtain ⟨⟨_, s₂⟩, hequals, h⟩ := bind_ok h
  cases h
  exact (yields_word.hinting _ hname).append ((yields_sign .equals).hinting _ hequals)

theorem yields_nextMember : Yields nextMember fun x => [.sign .bar, .word x] := by
  intro s x t h
  obtain ⟨⟨_, s₁⟩, hbar, h⟩ := bind_ok h
  exact (yields_sign .bar hbar).append (yields_word h)

theorem yields_members : Yields members fun xs => (Body.union xs).lexemes := by
  intro s xs t h
  obtain ⟨⟨first, s₁⟩, hfirst, h⟩ := bind_ok h
  obtain ⟨⟨rest, s₂⟩, hrest, h⟩ := bind_ok h
  cases h
  exact ((yields_word.orCommit).hinting _ hfirst).append (yields_nextMember.many hrest)

theorem yields_elementNode : Yields elementNode fun x => [.sign .colon, .word x] := by
  intro s x t h
  obtain ⟨⟨_, s₁⟩, hcolon, h⟩ := bind_ok h
  exact (yields_sign .colon hcolon).append ((yields_word.orCommit).hinting _ h)

theorem yields_element : Yields element Element.lexemes := by
  intro s e t h
  obtain ⟨⟨first, s₁⟩, hfirst, h⟩ := bind_ok h
  obtain ⟨⟨target, s₂⟩, htarget, h⟩ := bind_ok h
  cases h
  have hrow := (yields_word hfirst).append (yields_elementNode.optional htarget)
  cases target with
  | some target => exact hrow
  | none => exact hrow

theorem yields_tokenDefinition :
    Yields (lexeme tokenDefinition) fun d => Node.lexemes d.1 { body := d.2 } := by
  intro s d t h
  obtain ⟨⟨_, s₁⟩, hkeyword, h⟩ := bind_ok h
  obtain ⟨⟨name, s₂⟩, hname, h⟩ := bind_ok h
  obtain ⟨⟨p, s₃⟩, hpattern, h⟩ := bind_ok h
  obtain ⟨⟨_, s₄⟩, hsemicolon, h⟩ := bind_ok h
  cases h
  exact ((yields_keyword (w := "token") (by decide) hkeyword).append
    (yields_definitionName hname)).append
      (((yields_pattern.orCommit).hinting _ hpattern).append (yields_semicolon hsemicolon))

theorem yields_unionDefinition :
    Yields (lexeme unionDefinition) fun d => Node.lexemes d.1 { body := d.2 } := by
  intro s d t h
  obtain ⟨⟨_, s₁⟩, hkeyword, h⟩ := bind_ok h
  obtain ⟨⟨name, s₂⟩, hname, h⟩ := bind_ok h
  obtain ⟨⟨xs, s₃⟩, hmembers, h⟩ := bind_ok h
  obtain ⟨⟨_, s₄⟩, hsemicolon, h⟩ := bind_ok h
  cases h
  exact ((yields_keyword (w := "union") (by decide) hkeyword).append
    (yields_definitionName hname)).append
      ((yields_members hmembers).append (yields_semicolon hsemicolon))

theorem yields_deductionDefinition :
    Yields (lexeme deductionDefinition) fun d => Node.lexemes d.1 { body := d.2 } := by
  intro s d t h
  obtain ⟨⟨_, s₁⟩, hkeyword, h⟩ := bind_ok h
  obtain ⟨⟨name, s₂⟩, hname, h⟩ := bind_ok h
  obtain ⟨⟨es, s₃⟩, helements, h⟩ := bind_ok h
  obtain ⟨⟨_, s₄⟩, hsemicolon, h⟩ := bind_ok h
  cases h
  exact ((yields_keyword (w := "deduction") (by decide) hkeyword).append
    (yields_definitionName hname)).append
      ((yields_element.many helements).append (yields_semicolon hsemicolon))

/-- A definition is one of the three kinds. -/
theorem ok_of_definitionBody {d : String × Body} (h : definitionBody s = .ok (d, t)) :
    tokenDefinition s = .ok (d, t) ∨ unionDefinition s = .ok (d, t) ∨
      deductionDefinition s = .ok (d, t) := by
  unfold definitionBody at h
  split at h
  · split at h
    · cases h
    · split at h
      · split at h
        · cases h
        · exact .inr (.inr h)
      · exact .inr (.inl h)
  · exact .inl h

theorem yields_definitionBody :
    Yields (lexeme definitionBody) fun d => Node.lexemes d.1 { body := d.2 } := by
  intro s d t h
  rcases ok_of_definitionBody h with h | h | h
  · exact yields_tokenDefinition h
  · exact yields_unionDefinition h
  · exact yields_deductionDefinition h

/-! ## Descriptions -/

theorem skips_dropWhile (s : List Char) : Skips s (s.dropWhile isBlank) := by
  induction s with
  | nil => exact .refl []
  | cons c s ih =>
    by_cases hc : isBlank c = true
    · rw [List.dropWhile_cons_of_pos hc]
      exact .blank hc ih
    · rw [List.dropWhile_cons_of_neg hc]
      exact .refl _

/-- The lines of a description are spelled in front of blanks. -/
theorem spelled_docLines (n : Nat) (s : List Char) :
    ∃ u, Spelled ((docLines n s).1.map fun line => .line (docText line)) s u ∧
      Skips u (docLines n s).2 := by
  induction n generalizing s with
  | zero => exact ⟨s, .nil s, .refl s⟩
  | succ n ih =>
    rw [docLines]
    split
    · rename_i t hfront
      split
      · rename_i line rest hline
        obtain ⟨rfl, hfeed, hreturn, hend⟩ := exists_of_restOfLine? hline
        obtain ⟨u', hlines, hskip'⟩ := ih (rest.dropWhile isBlank)
        obtain ⟨u, hlines, hskip⟩ := hlines.exists_of_skips (skips_dropWhile rest)
        have htrivia : trivia s = '/' :: '/' :: '/' :: (line ++ rest) := by
          rw [← trivia_dropWhile, hfront, trivia_docLine]
        exact ⟨u, .cons (skipsAll_iff.2 htrivia.symm) (.line hfeed hreturn hend) hlines,
          hskip.trans hskip'⟩
      · exact ⟨s, .nil s, .refl s⟩
    · exact ⟨s, .nil s, .refl s⟩

/-- **The lines of a description** are spelled in front of blanks. -/
theorem spelled_description (s : List Char) :
    ∃ u, Spelled ((descriptionLines (description s).1).map .line) s u ∧
      Skips u (description s).2 := by
  obtain ⟨u, hlines, hskip⟩ := spelled_docLines s.length s
  refine ⟨u, ?_, hskip⟩
  have hdescription : descriptionLines (description s).1 =
      (docLines s.length s).1.map docText := by
    rw [description]
    simp only
    split
    · rename_i hnil
      rw [hnil]
      rfl
    · rename_i hne
      have hfeed : ∀ line ∈ (docLines s.length s).1.map docText, '\n' ∉ line := by
        intro line hline
        obtain ⟨raw, hraw, rfl⟩ := List.mem_map.1 hline
        exact hlines.notMem_line (List.mem_map.2 ⟨raw, hraw, rfl⟩)
      have htexts : (docLines s.length s).1.map (String.toList ∘ fun line =>
          String.ofList (docText line)) = (docLines s.length s).1.map docText :=
        List.map_congr_left fun line _ => String.toList_ofList
      rw [descriptionLines, String.toList_intercalate, List.map_map, htexts]
      exact List.splitOn_intercalate '\n' hfeed (by simpa using hne)
  rw [hdescription, List.map_map]
  exact hlines

/-- **What is read as a definition** is spelled that way. -/
theorem yields_definition : Yields definition fun d => d.2.lexemes d.1 := by
  intro s d t h
  obtain ⟨u, hlines, hskip⟩ := spelled_description (trivia s)
  unfold definition at h
  obtain ⟨⟨⟨name, body⟩, s₁⟩, hbody, h⟩ := bind_ok h
  cases h
  have hback := (yields_definitionBody (ok_of_mapError hbody)).of_skips
    (List.cons_ne_nil _ _) hskip
  exact (hlines.append hback).of_skips (by simp [Node.lexemes]) (skips_trivia s)

end GrammarKit.Notation
