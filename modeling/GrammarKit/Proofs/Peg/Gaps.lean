import GrammarKit.Peg.Lexeme

/-!
# Blanks and comments between words

* `dropGap_eq`: a gap is skipped one comment at a time.
* `dropGap_solid`: a text that starts with a word has no gap in front.
* `dropGap_space`, `dropGap_feed`, **`dropGap_lineComment`**: the gaps of generated grammars.
-/

namespace GrammarKit.Peg

/-- The characters with which a gap can start. -/
def startsGap (c : Char) : Bool := c == ' ' || c == '\t' || c == '\n' || c == '\r' || c == '/'

/-! ## Lengths -/

theorem length_skipBlanks (s : List Char) : (skipBlanks s).length ≤ s.length := by
  fun_induction skipBlanks s with
  | case1 s ih => simp only [List.length_cons]; omega
  | case2 c s _ hc ih => simp only [List.length_cons]; omega
  | case3 c s _ hc => exact Nat.le_refl _
  | case4 => exact Nat.le_refl _

theorem length_afterComment (n : Nat) (s rest : List Char) (h : afterComment n s = some rest) :
    rest.length ≤ s.length := by
  fun_induction afterComment n s generalizing rest with
  | case1 => cases h
  | case2 => cases h
  | case3 n s => cases h; simp only [List.length_cons]; omega
  | case4 n s mid hm ih₁ ih₂ =>
    have h₁ := ih₁ mid hm
    have h₂ := ih₂ rest h
    simp only [List.length_cons]
    omega
  | case5 n s hm ih₁ ih₂ =>
    have h₂ := ih₂ rest h
    simp only [List.length_cons] at h₂ ⊢
    omega
  | case6 n c s _ _ ih =>
    have h₂ := ih rest h
    simp only [List.length_cons]
    omega

theorem length_dropLine (s : List Char) : (dropLine s).length ≤ s.length := by
  fun_induction dropLine s with
  | case1 => exact Nat.le_refl _
  | case2 => exact Nat.le_refl _
  | case3 => exact Nat.le_refl _
  | case4 c s _ _ ih => simp only [List.length_cons]; omega

theorem length_comment? {s rest : List Char} (h : comment? s = some rest) :
    rest.length < s.length := by
  unfold comment? at h
  split at h
  · have := length_afterComment _ _ _ h
    simp only [List.length_cons]
    omega
  · rename_i s
    split at h
    · cases h
    · cases h
      have := length_dropLine s
      simp only [List.length_cons]
      omega
  · cases h

theorem length_dropGapUpTo (n : Nat) (s : List Char) : (dropGapUpTo n s).length ≤ s.length := by
  induction n generalizing s with
  | zero => exact length_skipBlanks s
  | succ n ih =>
    have hs := length_skipBlanks s
    rw [dropGapUpTo]
    cases hc : comment? (skipBlanks s) with
    | none => exact hs
    | some rest =>
      have hrest := length_comment? hc
      have := ih rest
      simp only
      omega

theorem length_dropGap (s : List Char) : (dropGap s).length ≤ s.length := length_dropGapUpTo _ s

/-! ## One comment at a time -/

/-- More steps than characters change nothing. -/
theorem dropGapUpTo_of_length_le {n m : Nat} {s : List Char} (hn : s.length ≤ n)
    (hm : s.length ≤ m) : dropGapUpTo n s = dropGapUpTo m s := by
  induction n generalizing m s with
  | zero =>
    obtain rfl : s = [] := List.length_eq_zero_iff.mp (Nat.le_zero.mp hn)
    cases m <;> rfl
  | succ n ih =>
    cases m with
    | zero =>
      obtain rfl : s = [] := List.length_eq_zero_iff.mp (Nat.le_zero.mp hm)
      rfl
    | succ m =>
      have hs := length_skipBlanks s
      rw [dropGapUpTo, dropGapUpTo]
      cases hc : comment? (skipBlanks s) with
      | none => rfl
      | some rest =>
        have := length_comment? hc
        exact ih (by omega) (by omega)

theorem dropGap_eq (s : List Char) :
    dropGap s = match comment? (skipBlanks s) with
      | some rest => dropGap rest
      | none => skipBlanks s := by
  cases s with
  | nil => rfl
  | cons c s =>
    have hs := length_skipBlanks (c :: s)
    rw [dropGap, List.length_cons, dropGapUpTo]
    cases hc : comment? (skipBlanks (c :: s)) with
    | none => rfl
    | some rest =>
      have := length_comment? hc
      simp only [List.length_cons] at hs
      exact dropGapUpTo_of_length_le (by omega) (Nat.le_refl _)

theorem dropGap_congr {s t : List Char} (h : skipBlanks s = skipBlanks t) :
    dropGap s = dropGap t := by
  rw [dropGap_eq, dropGap_eq, h]

/-! ## The gaps of generated grammars -/

theorem skipBlanks_solid {c : Char} (hc : startsGap c = false) (s : List Char) :
    skipBlanks (c :: s) = c :: s := by
  simp only [startsGap, Bool.or_eq_false_iff, beq_eq_false_iff_ne, ne_eq] at hc
  obtain ⟨⟨⟨⟨h₁, h₂⟩, h₃⟩, h₄⟩, -⟩ := hc
  unfold skipBlanks
  split
  · rename_i heq
    cases heq
    exact absurd rfl h₄
  · rename_i heq
    cases heq
    simp [h₁, h₂, h₃]
  · rename_i heq
    cases heq

theorem comment?_of_ne {c : Char} (hc : c ≠ '/') (s : List Char) : comment? (c :: s) = none := by
  unfold comment?
  split
  · rename_i heq
    exact absurd (List.cons.inj heq).1 hc
  · rename_i heq
    exact absurd (List.cons.inj heq).1 hc
  · rfl

theorem comment?_solid {c : Char} (hc : startsGap c = false) (s : List Char) :
    comment? (c :: s) = none := by
  simp only [startsGap, Bool.or_eq_false_iff, beq_eq_false_iff_ne, ne_eq] at hc
  exact comment?_of_ne hc.2 s

theorem dropGap_solid {c : Char} (hc : startsGap c = false) (s : List Char) :
    dropGap (c :: s) = c :: s := by
  rw [dropGap_eq, skipBlanks_solid hc, comment?_solid hc]

@[simp] theorem dropGap_nil : dropGap [] = [] := rfl

theorem skipBlanks_space (s : List Char) : skipBlanks (' ' :: s) = skipBlanks s := by
  rw [skipBlanks]
  · simp
  · intro s' h
    exact absurd h (by decide)

theorem skipBlanks_feed (s : List Char) : skipBlanks ('\n' :: s) = skipBlanks s := by
  rw [skipBlanks]
  · simp
  · intro s' h
    exact absurd h (by decide)

theorem skipBlanks_slash (s : List Char) : skipBlanks ('/' :: s) = '/' :: s := by
  rw [skipBlanks]
  · simp
  · intro t h
    exact absurd h (by decide)

@[simp] theorem dropGap_space (s : List Char) : dropGap (' ' :: s) = dropGap s :=
  dropGap_congr (skipBlanks_space s)

@[simp] theorem dropGap_feed (s : List Char) : dropGap ('\n' :: s) = dropGap s :=
  dropGap_congr (skipBlanks_feed s)

/-- A line ends at its line feed, or at a carriage return right in front of it. -/
theorem skipBlanks_dropLine {line : List Char} (h : '\n' ∉ line) (s : List Char) :
    skipBlanks (dropLine (line ++ '\n' :: s)) = skipBlanks s := by
  induction line with
  | nil => exact skipBlanks_feed s
  | cons c line ih =>
    rw [List.mem_cons, not_or] at h
    by_cases hr : c = '\r' ∧ ∃ t, line ++ '\n' :: s = '\n' :: t
    · obtain ⟨rfl, t, ht⟩ := hr
      have hline : line = [] := by
        cases line with
        | nil => rfl
        | cons d line =>
          rw [List.cons_append, List.cons.injEq] at ht
          exact absurd (ht.1 ▸ List.mem_cons_self) h.2
      subst hline
      rw [List.cons_append, List.nil_append, dropLine, skipBlanks]
    · rw [List.cons_append, dropLine]
      · exact ih h.2
      · intro hc
        exact h.1 hc.symm
      · intro t hc ht
        exact hr ⟨hc, t, ht⟩

/-- A comment of two slashes reaches to the end of its line. -/
theorem dropGap_lineComment {line : List Char} (h : '\n' ∉ line) (h₁ : line.head? ≠ some '/')
    (h₂ : line.head? ≠ some '!') (s : List Char) :
    dropGap ('/' :: '/' :: (line ++ '\n' :: s)) = dropGap s := by
  have hhead : (line ++ '\n' :: s).head? ≠ some '/' ∧ (line ++ '\n' :: s).head? ≠ some '!' := by
    cases line with
    | nil => exact ⟨by simp, by simp⟩
    | cons c line => exact ⟨by simpa using h₁, by simpa using h₂⟩
  rw [dropGap_eq, skipBlanks_slash, comment?, if_neg (not_or.mpr hhead)]
  exact dropGap_congr (skipBlanks_dropLine h s)

end GrammarKit.Peg
