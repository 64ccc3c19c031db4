import GrammarKit.Proofs.Code.Identifier
import GrammarKit.Proofs.Code.Surroundings
import GrammarKit.Proofs.Peg.Remainder

/-!
# Blanks and comments of code in grammar texts

What code takes for blanks and comments need not be a gap of a grammar text: other blanks are
signs there, a comment of four slashes documents a rule, and a comment up to the end of the line
goes on in the text behind it.

* `Passes`: what becomes of a blank or comment in a grammar text, however the text goes on.
* **`passes_blank`**, **`passes_comment`**: all blanks and comments of code pass so.
* **`readsRest_front`**: blanks and comments in front of a rule do not matter, or the text is
  refused.
* **`dropGap_back`**: behind the name of a rule they are a gap, or no assignment follows.
-/

namespace GrammarKit.Peg

open Code (afterComment? isCodeBlank skipTrivia)

variable {s rest : List Char} {c : Char}

/-! ## Nested comments -/

/-- The text behind a comment is the same for both readers. The comments around it are left to
close. -/
theorem afterComment_append (k : List Char) {n : Nat} :
    ∀ {s rest : List Char} {depth : Nat}, s.length ≤ n → afterComment? depth s = some rest →
      ∃ mid, mid.length < s.length ∧
        (∀ m, (s ++ k).length < m → afterComment m (s ++ k) = some (mid ++ k)) ∧
        (depth = 0 ∧ mid = rest ∨ ∃ d, depth = d + 1 ∧ afterComment? d mid = some rest) := by
  induction n with
  | zero =>
    intro s rest depth hs h
    obtain rfl := List.length_eq_zero_iff.1 (Nat.le_zero.1 hs)
    cases depth <;> simp [afterComment?] at h
  | succ n ih =>
    intro s rest depth hs h
    have hpos {m : Nat} (hm : (s ++ k).length < m) : ∃ m', m = m' + 1 := ⟨m - 1, by omega⟩
    rw [afterComment?.eq_def] at h
    split at h
    -- a comment inside: what is behind it closes the comment around it
    · rename_i _ _ s'
      simp only [List.length_cons] at hs
      obtain ⟨mid, hlength, hmid, ⟨h0, -⟩ | ⟨d, hd, hrest⟩⟩ := ih (by omega) h
      · cases h0
      · obtain rfl := Nat.succ.inj hd
        obtain ⟨mid', hlength', hmid', hor⟩ := ih (by omega) hrest
        refine ⟨mid', by simp only [List.length_cons]; omega, fun m hm => ?_, hor⟩
        obtain ⟨m, rfl⟩ := hpos hm
        simp only [List.cons_append, List.length_cons, List.length_append] at hm hmid hmid' ⊢
        rw [afterComment, hmid m (by omega)]
        exact hmid' m (by omega)
    · cases h
      refine ⟨rest, by simp only [List.length_cons]; omega, fun m hm => ?_, .inl ⟨rfl, rfl⟩⟩
      obtain ⟨m, rfl⟩ := hpos hm
      rfl
    · rename_i _ _ d s'
      refine ⟨s', by simp only [List.length_cons]; omega, fun m hm => ?_, .inr ⟨d, rfl, h⟩⟩
      obtain ⟨m, rfl⟩ := hpos hm
      rfl
    · rename_i c s' hopen hclose₀ hclose
      simp only [List.length_cons] at hs
      obtain ⟨mid, hlength, hmid, hor⟩ := ih (by omega) h
      refine ⟨mid, by simp only [List.length_cons]; omega, fun m hm => ?_, hor⟩
      obtain ⟨m, rfl⟩ := hpos hm
      -- the text behind `c` has a sign, since the comment still has to close
      obtain ⟨e, t, rfl⟩ : ∃ e t, s' = e :: t := by
        cases s' with
        | nil => cases depth <;> simp [afterComment?] at h
        | cons e t => exact ⟨e, t, rfl⟩
      simp only [List.cons_append, List.length_cons, List.length_append] at hm hmid ⊢
      rw [afterComment]
      · exact hmid m (by omega)
      · rintro t' rfl heq
        obtain ⟨rfl, rfl⟩ := List.cons.inj heq
        cases depth with
        | zero => exact hclose₀ t rfl rfl rfl
        | succ d => exact hclose d t rfl rfl rfl
      · rintro t' rfl heq
        obtain ⟨rfl, rfl⟩ := List.cons.inj heq
        exact hopen t rfl rfl
    · cases h

/-- A comment that documents a rule is no gap. -/
theorem dropGap_ruleDoc (line : List Char) :
    dropGap ('/' :: '/' :: '/' :: line) = '/' :: '/' :: '/' :: line := by
  rw [dropGap_eq, skipBlanks_slash]
  rfl

/-- A comment of code between slash and star. -/
theorem dropGap_blockComment (h : afterComment? 0 s = some rest) (k : List Char) :
    dropGap ('/' :: '*' :: (s ++ k)) = dropGap (rest ++ k) := by
  obtain ⟨mid, -, hmid, ⟨-, rfl⟩ | ⟨d, hd, -⟩⟩ := afterComment_append k (Nat.le_refl _) h
  · rw [dropGap_eq, skipBlanks_slash, comment?, hmid _ (Nat.lt_succ_self _)]
  · cases hd

theorem length_code_comment? (h : Code.comment? s = some rest) : rest.length < s.length := by
  have hblock {t : List Char} (ht : afterComment? 0 t = some rest) :
      rest.length < ('/' :: '*' :: t).length := by
    obtain ⟨mid, hlength, -, ⟨-, rfl⟩ | ⟨d, hd, -⟩⟩ := afterComment_append [] (Nat.le_refl _) ht
    · simp only [List.length_cons]
      omega
    · cases hd
  have hline {t : List Char} (ht : t.dropWhile (· != '\n') = rest) :
      rest.length < ('/' :: '/' :: t).length := by
    have := (List.dropWhile_suffix (· != '\n') (l := t)).length_le
    simp only [List.length_cons, ← ht]
    omega
  rw [Code.comment?.eq_def] at h
  split at h
  · exact hblock h
  · split at h
    · cases h
    · exact hblock h
    · cases h
    · exact hblock h
  · split at h
    · cases h
    · exact hline (Option.some.inj h)
    · cases h
    · exact hline (Option.some.inj h)
  · cases h

/-! ## One blank or comment -/

/-- What may stand behind blanks and comments so that it does not change them. -/
def IsTail (k : List Char) : Prop := ∀ c ∈ k.head?, c ∉ ['\n', '/', '!']

theorem IsTail.head?_ne (hk : IsTail k) {c : Char} (hc : c ∈ ['\n', '/', '!']) :
    k.head? ≠ some c := fun hhead => hk c hhead hc

/-- **What becomes of a blank or comment of code**, with `rest` behind it, in a grammar text,
however the text goes on. -/
inductive Passes (s rest : List Char) : Prop where
  | gap (h : ∀ k, IsTail k → dropGap (s ++ k) = dropGap (rest ++ k))
  | line (line : List Char) (h : ∀ k, IsTail k → dropGap (s ++ k) = dropGap (dropLine (line ++ k)))
    (hline : '\n' ∉ line) (hrest : rest = [])
  | doc (line : List Char) (h : s = '/' :: '/' :: '/' :: line)
    (hrest : rest = line.dropWhile (· != '\n'))
  | sign (c : Char) (h : ∀ k, IsTail k → ∃ t, dropGap (s ++ k) = c :: t)
    (hname : startsName c = false) (hslash : c ≠ '/') (heq : c ≠ '=')

theorem startsName_of_isCodeBlank (h : isCodeBlank c = true) : startsName c = false := by
  rw [Bool.eq_false_iff]
  intro hname
  have hpart : isIdentifierPart c = true := by
    have := continuesName_of_startsName hname
    rwa [continuesName, Bool.or_comm] at this
  rw [Code.isCodeBlank_of_isIdentifierPart hpart] at h
  cases h

theorem passes_blank (h : isCodeBlank c = true) : Passes (c :: rest) rest := by
  have hname := startsName_of_isCodeBlank h
  have hslash : c ≠ '/' := by
    rintro rfl
    exact absurd h (by decide)
  have heq : c ≠ '=' := by
    rintro rfl
    exact absurd h (by decide)
  have hskip {t : List Char} (hfeed : ¬ (c = '\r' ∧ t.head? = some '\n')) : skipBlanks (c :: t) =
      if c = ' ' ∨ c = '\t' ∨ c = '\n' then skipBlanks t else c :: t := by
    rw [skipBlanks]
    intro u hc ht
    exact hfeed ⟨hc, by rw [ht]; rfl⟩
  by_cases hc : c = ' ' ∨ c = '\t' ∨ c = '\n'
  · refine .gap fun k _ => dropGap_congr ?_
    rw [List.cons_append, hskip, if_pos hc]
    rintro ⟨rfl, -⟩
    exact absurd hc (by decide)
  by_cases hfeed : c = '\r' ∧ rest.head? = some '\n'
  · obtain ⟨rfl, hhead⟩ := hfeed
    obtain ⟨t, rfl⟩ : ∃ t, rest = '\n' :: t := List.head?_eq_some_iff.1 hhead
    refine .gap fun k _ => ?_
    rw [List.cons_append, List.cons_append, dropGap_feed]
    exact dropGap_congr (by rw [skipBlanks])
  refine .sign c (fun k hk => ⟨rest ++ k, ?_⟩) hname hslash heq
  rw [List.cons_append, dropGap_eq, hskip, if_neg hc, comment?_of_ne hslash]
  rintro ⟨hcr, hhead⟩
  cases rest with
  | nil => exact hk.head?_ne (by decide) hhead
  | cons d t => exact hfeed ⟨hcr, hhead⟩

/-- The rest of a line and the text behind it. -/
theorem dropWhile_line (line : List Char) :
    ('\n' ∉ line ∧ line.dropWhile (· != '\n') = []) ∨
      ∃ front back, line = front ++ '\n' :: back ∧ '\n' ∉ front ∧
        line.dropWhile (· != '\n') = '\n' :: back := by
  induction line with
  | nil => exact .inl ⟨List.not_mem_nil, rfl⟩
  | cons c line ih =>
    by_cases hc : c = '\n'
    · subst hc
      exact .inr ⟨[], line, rfl, List.not_mem_nil, rfl⟩
    · have hdrop : (c :: line).dropWhile (· != '\n') = line.dropWhile (· != '\n') := by
        rw [List.dropWhile_cons, if_pos (by simpa using hc)]
      have hmem {t : List Char} (ht : '\n' ∉ t) : '\n' ∉ c :: t := by
        simpa [ht] using Ne.symm hc
      rw [hdrop]
      rcases ih with ⟨hline, h⟩ | ⟨front, back, rfl, hfront, h⟩
      · exact .inl ⟨hmem hline, h⟩
      · exact .inr ⟨c :: front, back, rfl, hmem hfront, h⟩

theorem passes_lineComment {line : List Char} (h₁ : line.head? ≠ some '/')
    (h₂ : line.head? ≠ some '!') :
    Passes ('/' :: '/' :: line) (line.dropWhile (· != '\n')) := by
  rcases dropWhile_line line with ⟨hline, h⟩ | ⟨front, back, rfl, hfront, h⟩
  · rw [h]
    refine .line line (fun k hk => ?_) hline rfl
    have hhead : (line ++ k).head? ≠ some '/' ∧ (line ++ k).head? ≠ some '!' := by
      cases line with
      | nil => exact ⟨hk.head?_ne (by decide), hk.head?_ne (by decide)⟩
      | cons c line => exact ⟨h₁, h₂⟩
    rw [List.cons_append, List.cons_append, dropGap_eq, skipBlanks_slash, comment?,
      if_neg (not_or.2 hhead)]
  · rw [h]
    refine .gap fun k _ => ?_
    rw [List.cons_append, List.cons_append, List.cons_append, List.append_assoc, List.cons_append,
      dropGap_feed]
    refine dropGap_lineComment hfront ?_ ?_ _
    · cases front with
      | nil => simp
      | cons c front => exact h₁
    · cases front with
      | nil => simp
      | cons c front => exact h₂

theorem passes_comment (h : Code.comment? s = some rest) : Passes s rest := by
  have hblock {t : List Char} (ht : afterComment? 0 t = some rest) :
      Passes ('/' :: '*' :: t) rest := .gap fun k _ => dropGap_blockComment ht k
  rw [Code.comment?.eq_def] at h
  split at h
  · exact hblock h
  · split at h
    · cases h
    · exact hblock h
    · cases h
    · exact hblock h
  · split at h
    · cases h
    · rename_i t
      cases h
      exact .doc ('/' :: t) rfl rfl
    · cases h
    · rename_i h₁ _ h₂
      cases h
      refine passes_lineComment (fun hhead => ?_) (fun hhead => ?_)
      · exact h₂ _ (List.eq_cons_of_mem_head? hhead)
      · exact h₁ _ (List.eq_cons_of_mem_head? hhead)
  · cases h

/-! ## All blanks and comments -/

/-- Blanks and comments are skipped one at a time. -/
theorem passes_of_skipTrivia {n : Nat} {word : List Char} (hs : s.length ≤ n)
    (h : skipTrivia n s = word) :
    s = word ∨ ∃ rest m, Passes s rest ∧ rest.length < s.length ∧ rest.length ≤ m ∧ m < n ∧
      skipTrivia m rest = word := by
  cases n with
  | zero => exact .inl h
  | succ n =>
    rw [Code.skipTrivia.eq_def] at h
    simp only at h
    split at h
    · exact .inl h
    · rename_i c t
      simp only [List.length_cons] at hs
      split at h
      · rename_i hblank
        exact .inr ⟨t, n, passes_blank hblank, by simp, by omega, by omega, h⟩
      · split at h
        · rename_i rest hcomment
          have hlength := length_code_comment? hcomment
          simp only [List.length_cons] at hlength
          exact .inr ⟨rest, n, passes_comment hcomment, by simp only [List.length_cons]; omega,
            by omega, by omega, h⟩
        · exact .inl h

/-- **Blanks and comments in front of a rule do not matter**, or the text is refused, however it
goes on. -/
theorem readsRest_front {n : Nat} {word : List Char} (hs : s.length ≤ n)
    (h : skipTrivia n s = word) (hword : word ≠ []) :
    (∀ k, IsTail k → ∀ depth O, ReadsRest depth (word ++ k) O → ReadsRest depth (s ++ k) O) ∨
      ∀ k, IsTail k → ∀ depth, ReadsRest depth (s ++ k) Step.IsRefused := by
  induction n using Nat.strong_induction_on generalizing s with
  | _ n ih =>
    rcases passes_of_skipTrivia hs h with rfl | ⟨rest, m, hpasses, hlength, hm, hmn, hrest⟩
    · exact .inl fun _ _ _ _ hO => hO
    cases hpasses with
    | gap hgap =>
      refine (ih m hmn hm hrest).imp (fun hO k hk depth O hword => ?_) fun hO k hk depth => ?_
      · exact .of_gap (hgap k hk) (hO k hk depth O hword)
      · exact .of_gap (hgap k hk) (hO k hk depth)
    | line line _ _ hnil =>
      rw [hnil] at hrest
      cases m <;> exact absurd hrest.symm hword
    | doc line hdoc hdrop =>
      subst hdoc
      have hskip {k : List Char} {depth : Nat} {O : Step (List Definition) → Prop}
          (hO : ReadsRest depth (rest ++ k) O) :
          ReadsRest depth ('/' :: '/' :: '/' :: line ++ k) O := by
        refine .of_doc (dropGap_ruleDoc (line ++ k)) ?_
        rcases dropWhile_line line with ⟨-, hnil⟩ | ⟨own, back, rfl, hown, hback⟩
        · rw [hdrop, hnil] at hrest
          cases m <;> exact absurd hrest.symm hword
        · refine .of_gap ?_ hO
          rw [hdrop, hback, List.append_assoc, List.cons_append, dropGap_feed]
          exact dropGap_congr (skipBlanks_dropLine hown _)
      exact (ih m hmn hm hrest).imp (fun hO k hk depth O hword => hskip (hO k hk depth O hword))
        fun hO k hk depth => hskip (hO k hk depth)
    | sign c hsign hname hslash _ =>
      refine .inr fun k hk depth => ?_
      obtain ⟨t, ht⟩ := hsign k hk
      refine .refused ?_ ?_
      · rw [ht]
        exact refuses_definition_head (name?_of_not_starts hname t) hslash.symm
      · rw [ht]
        exact List.cons_ne_nil _ _

/-- A text that goes on to the end of its line, with no assignment on the lines behind it. -/
def EndsItsLine (k : List Char) : Prop :=
  ∃ line back, k = line ++ '\n' :: back ∧ '\n' ∉ line ∧ ∀ t, dropGap back ≠ '=' :: t

/-- **Blanks and comments behind the name of a rule** are a gap in front of what follows, or no
assignment follows, however the text goes on. -/
theorem dropGap_back {n : Nat} (hs : s.length ≤ n) (h : skipTrivia n s = []) :
    (∀ k, IsTail k → EndsItsLine k → dropGap (s ++ k) = dropGap k) ∨
      ∀ k, IsTail k → EndsItsLine k → ∀ t, dropGap (s ++ k) ≠ '=' :: t := by
  induction n using Nat.strong_induction_on generalizing s with
  | _ n ih =>
    rcases passes_of_skipTrivia hs h with rfl | ⟨rest, m, hpasses, hlength, hm, hmn, hrest⟩
    · exact .inl fun _ _ _ => rfl
    cases hpasses with
    | gap hgap =>
      refine (ih m hmn hm hrest).imp (fun hdrop k hk hline => ?_) fun hdrop k hk hline t => ?_
      · rw [hgap k hk]
        exact hdrop k hk hline
      · rw [hgap k hk]
        exact hdrop k hk hline t
    | line own hgap hown _ =>
      refine .inr fun k hk ⟨line, back, hkline, hline, hback⟩ t => ?_
      rw [hgap k hk, hkline, ← List.append_assoc,
        dropGap_congr (skipBlanks_dropLine (List.not_mem_append hown hline) back)]
      exact hback t
    | doc own hown _ =>
      refine .inr fun k _ _ t => ?_
      rw [hown, List.cons_append, List.cons_append, List.cons_append, dropGap_ruleDoc]
      exact fun h => absurd (List.cons.inj h).1 (by decide)
    | sign c hsign _ _ heq =>
      refine .inr fun k hk _ t ht => heq ?_
      obtain ⟨u, hu⟩ := hsign k hk
      rw [hu] at ht
      exact (List.cons.inj ht).1

end GrammarKit.Peg
