import GrammarKit.Proofs.Peg.Progress
import GrammarKit.Proofs.Regex.Normal

/-!
# Patterns that get on

A regular expression that does not match the empty text is lowered to an expression that takes a
character whenever it matches, any other to one that may not, and all counts of what is lowered can
be read.

* `lower_isSound`: counts.
* **`lower_getsOn`**: what gets on is what has a least length that is not zero.
* **`lowerPattern_getsOn`**, `lowerPattern_isSound`: both for patterns.
-/

namespace GrammarKit.Peg.Expr

/-! ## Sequences and choices -/

theorem isSound_sequence {es : List Expr} (h : ∀ e ∈ es, e.isSound = true) :
    (sequence es).isSound = true :=
  (sequence_iff (P := (isSound · = true)) (fun _ _ => Bool.and_eq_true_iff) rfl es).2 h

theorem isSound_firstOf {es : List Expr} (h : ∀ e ∈ es, e.isSound = true) :
    (firstOf es).isSound = true :=
  (firstOf_iff (P := (isSound · = true)) (fun _ _ => Bool.and_eq_true_iff) fun _ => rfl).2 h

/-- A choice gets on if all its branches do. -/
theorem getsOn_firstOf {es : List Expr} (hne : es ≠ []) :
    (firstOf es).getsOn = true ↔ ∀ e ∈ es, e.getsOn = true :=
  firstOf_iff (P := (getsOn · = true)) (fun _ _ => Bool.and_eq_true_iff) fun hnil => absurd hnil hne

/-- A sequence gets on if one of its parts does. -/
theorem getsOn_sequence (es : List Expr) :
    (sequence es).getsOn = true ↔ ∃ e ∈ es, e.getsOn = true := by
  have hstill := sequence_iff (P := (getsOn · = false)) (fun _ _ => Bool.or_eq_false_iff) rfl es
  rw [← not_iff_not, Bool.not_eq_true, hstill]
  simp

end GrammarKit.Peg.Expr

namespace GrammarKit.Regex

open Peg Expr

/-! ## Counts -/

theorem isSound_lowerTimes {body : Regex} {least : Nat} {most : Option Nat}
    (h : RepeatsInOrder body least most) : (lowerTimes least most).isSound = true := by
  have hleast := h.least_le
  have hmost := h.most_le
  have hpos := h.most_pos
  rw [maxCount] at hleast
  simp only [maxCount] at hmost
  unfold lowerTimes
  split
  · rfl
  · rfl
  · rfl
  · simpa [Times.isSound] using hleast
  · rename_i n m _
    have hm := hmost m rfl
    have hm0 : m ≠ 0 := fun hm => hpos (by rw [hm])
    split
    · simp only [Times.isSound, Bool.and_eq_true, decide_eq_true_eq]
      omega
    · split
      · simp only [Times.isSound, Bool.and_eq_true, decide_eq_true_eq]
        omega
      · simp only [Times.isSound, Bool.and_eq_true, decide_eq_true_eq]
        omega

theorem getsOn_repeated {body : Expr} {least : Nat} {most : Option Nat} (hmost : most ≠ some 0) :
    (Expr.repeated body (lowerTimes least most)).getsOn = true ↔
      least ≠ 0 ∧ body.getsOn = true := by
  unfold lowerTimes
  split
  · simp [getsOn]
  · simp [getsOn]
  · simp [getsOn]
  · simp [getsOn]
  · rename_i n m _
    have hm : m ≠ 0 := fun hm => hmost (by rw [hm])
    split
    · simp [getsOn]
    · split
      · rename_i hleast
        simp [getsOn, hleast]
      · simp [getsOn, hm]

/-! ## Classes -/

theorem asciiPart_getsOn {r : Nat × Nat} {e : Expr} (h : asciiPart r = some e) :
    e.getsOn = true ∧ e.isSound = true := by
  rw [asciiPart] at h
  split at h
  · cases h
  · simp only at h
    split at h
    · cases h
      exact ⟨by simp [getsOn, Char.toString], rfl⟩
    · cases h
      exact ⟨rfl, rfl⟩

theorem lowerClass_getsOn {s : Intervals} {e : Expr} (h : lowerClass s = .ok e) :
    e.getsOn = true ∧ e.isSound = true := by
  have hparts : ∀ p ∈ s.filterMap asciiPart ++
      (if s.any fun r => 0x7F < r.2 then [beyondAscii] else []),
      p.getsOn = true ∧ p.isSound = true := by
    refine List.forall_mem_append.2 ⟨fun p hp => ?_, ?_⟩
    · obtain ⟨r, -, hr⟩ := List.mem_filterMap.1 hp
      exact asciiPart_getsOn hr
    · split
      · exact List.forall_mem_singleton.2 ⟨rfl, rfl⟩
      · exact List.forall_mem_nil _
  rw [lowerClass] at h
  split at h
  · cases h
  · rename_i hne
    cases h
    exact ⟨(getsOn_firstOf hne).2 fun p hp => (hparts p hp).1,
      isSound_firstOf fun p hp => (hparts p hp).2⟩

theorem set_ne_nil_of_lowerClass {s : Intervals} {e : Expr} (h : lowerClass s = .ok e) :
    s ≠ [] := by
  rintro rfl
  cases h

/-- The members of a class take at least one byte. -/
theorem CharClass.exists_minLength (c : CharClass) (hne : c.set ≠ []) :
    ∃ k, c.minLength? = some k ∧ k ≠ 0 := by
  have hwidth (n : Nat) : width n ≠ 0 := by
    rw [width]
    split_ifs <;> decide
  cases c with
  | bytes s =>
    obtain ⟨r, s, rfl⟩ := List.exists_cons_of_ne_nil hne
    exact ⟨1, rfl, Nat.one_ne_zero⟩
  | chars s =>
    obtain ⟨r, s, rfl⟩ := List.exists_cons_of_ne_nil hne
    exact ⟨width r.1, rfl, hwidth _⟩

/-! ## Expressions -/

mutual

theorem lower_isSound {follow : ByteSet} (r : Regex) (hr : r.IsNormal) {e : Expr}
    (h : lower follow r = .ok e) : e.isSound = true := by
  cases r with
  | empty => cases h; rfl
  | literal bytes =>
    rw [lower] at h
    split at h <;> cases h
    rfl
  | charClass c => exact (lowerClass_getsOn h).2
  | look a => cases h
  | repetition body least most greedy =>
    rw [lower] at h
    split at h
    · cases h
    · split at h
      · cases h
      · obtain ⟨f, hf, h⟩ := bind_ok h
        cases h
        exact Bool.and_eq_true_iff.2 ⟨lower_isSound body hr.1 hf, isSound_lowerTimes hr.2⟩
  | capture index body => exact lower_isSound body hr h
  | concat parts =>
    obtain ⟨es, hes, h⟩ := bind_ok h
    cases h
    exact isSound_sequence (lowerSeq_isSound parts hr hes)
  | alternation branches =>
    obtain ⟨es, hes, h⟩ := bind_ok h
    cases h
    exact isSound_firstOf (lowerAny_isSound branches hr.2 hes)

theorem lowerSeq_isSound {follow : ByteSet} (rs : List Regex) (hrs : AllNormal rs)
    {es : List Expr} (h : lowerSeq follow rs = .ok es) : ∀ e ∈ es, e.isSound = true := by
  cases rs with
  | nil => cases h; exact List.forall_mem_nil _
  | cons r rs =>
    obtain ⟨e, he, h⟩ := bind_ok h
    obtain ⟨es, hes, h⟩ := bind_ok h
    cases h
    exact List.forall_mem_cons.2 ⟨lower_isSound r hrs.1 he, lowerSeq_isSound rs hrs.2 hes⟩

theorem lowerAny_isSound {follow : ByteSet} (rs : List Regex) (hrs : AllNormal rs)
    {es : List Expr} (h : lowerAny follow rs = .ok es) : ∀ e ∈ es, e.isSound = true := by
  cases rs with
  | nil => cases h; exact List.forall_mem_nil _
  | cons r rs =>
    obtain ⟨e, he, h⟩ := bind_ok h
    obtain ⟨es, hes, h⟩ := bind_ok h
    cases h
    exact List.forall_mem_cons.2 ⟨lower_isSound r hrs.1 he, lowerAny_isSound rs hrs.2 hes⟩

end

mutual

/-- **What is lowered has a least length**, and gets on exactly if that is not zero. -/
theorem lower_getsOn {follow : ByteSet} (r : Regex) (hr : r.IsNormal) {e : Expr}
    (h : lower follow r = .ok e) :
    ∃ k, r.minLength = some k ∧ (e.getsOn = true ↔ k ≠ 0) := by
  cases r with
  | empty =>
    cases h
    exact ⟨0, rfl, by simp [getsOn]⟩
  | literal bytes =>
    rw [lower] at h
    split at h
    · rename_i s hs
      cases h
      refine ⟨bytes.length, rfl, ?_⟩
      cases bytes with
      | nil =>
        rw [Text.decode?] at hs
        cases hs
        simp [getsOn]
      | cons b bytes =>
        rw [Text.decode?] at hs
        split at hs
        · obtain ⟨t, -, rfl⟩ := Option.map_eq_some_iff.1 hs
          simp [getsOn]
        · cases hs
    · cases h
  | charClass c =>
    have hon := (lowerClass_getsOn h).1
    obtain ⟨k, hk, hk0⟩ := c.exists_minLength (set_ne_nil_of_lowerClass h)
    exact ⟨k, hk, iff_of_true hon hk0⟩
  | look a => cases h
  | repetition body least most greedy =>
    rw [lower] at h
    split at h
    · cases h
    · split at h
      · cases h
      · obtain ⟨f, hf, h⟩ := bind_ok h
        cases h
        obtain ⟨k, hk, hon⟩ := lower_getsOn body hr.1 hf
        refine ⟨k * least, by rw [minLength, hk, Option.map_some], ?_⟩
        rw [getsOn_repeated hr.2.most_pos, hon, Nat.mul_ne_zero_iff, and_comm]
  | capture index body => exact lower_getsOn body hr h
  | concat parts =>
    obtain ⟨es, hes, h⟩ := bind_ok h
    cases h
    obtain ⟨k, hk, hon⟩ := lowerSeq_getsOn parts hr hes
    exact ⟨k, hk, (getsOn_sequence es).trans hon⟩
  | alternation branches =>
    obtain ⟨es, hes, h⟩ := bind_ok h
    cases h
    obtain ⟨hne, k, hk, hon⟩ := lowerAny_getsOn branches hr.1 hr.2 hes
    exact ⟨k, hk, (getsOn_firstOf hne).trans hon⟩

theorem lowerSeq_getsOn {follow : ByteSet} (rs : List Regex) (hrs : AllNormal rs)
    {es : List Expr} (h : lowerSeq follow rs = .ok es) :
    ∃ k, minLengthSum rs = some k ∧ ((∃ e ∈ es, e.getsOn = true) ↔ k ≠ 0) := by
  cases rs with
  | nil =>
    cases h
    exact ⟨0, rfl, by simp⟩
  | cons r rs =>
    obtain ⟨e, he, h⟩ := bind_ok h
    obtain ⟨es, hes, h⟩ := bind_ok h
    cases h
    obtain ⟨k, hk, hon⟩ := lower_getsOn r hrs.1 he
    obtain ⟨l, hl, hon'⟩ := lowerSeq_getsOn rs hrs.2 hes
    refine ⟨k + l, by rw [minLengthSum, hk, hl]; rfl, ?_⟩
    rw [List.exists_mem_cons_iff, hon, hon']
    omega

theorem lowerAny_getsOn {follow : ByteSet} (rs : List Regex) (hne : rs ≠ []) (hrs : AllNormal rs)
    {es : List Expr} (h : lowerAny follow rs = .ok es) :
    es ≠ [] ∧ ∃ k, minLengthLeast rs = some k ∧ ((∀ e ∈ es, e.getsOn = true) ↔ k ≠ 0) := by
  match rs, hne with
  | [r], _ =>
    obtain ⟨e, he, h⟩ := bind_ok h
    cases h
    obtain ⟨k, hk, hon⟩ := lower_getsOn r hrs.1 he
    exact ⟨List.cons_ne_nil _ _, k, hk, List.forall_mem_singleton.trans hon⟩
  | r :: q :: rs, _ =>
    obtain ⟨e, he, h⟩ := bind_ok h
    obtain ⟨es, hes, h⟩ := bind_ok h
    cases h
    obtain ⟨k, hk, hon⟩ := lower_getsOn r hrs.1 he
    obtain ⟨-, l, hl, hon'⟩ := lowerAny_getsOn (q :: rs) (List.cons_ne_nil _ _) hrs.2 hes
    refine ⟨List.cons_ne_nil _ _, min k l, ?_, ?_⟩
    · rw [minLengthLeast, hk, hl]
      · rfl
      · exact List.cons_ne_nil _ _
    · rw [List.forall_mem_cons, hon, hon']
      omega

end

end GrammarKit.Regex

namespace GrammarKit

open Peg

theorem lowerPattern_eq_ok {pattern : String} {e : Expr} (h : lowerPattern pattern = .ok e) :
    ∃ r, Regex.parse pattern = .ok r ∧ Regex.lower .empty r = .ok e := by
  rw [lowerPattern] at h
  split at h
  · cases h
  · rename_i r hr
    cases hl : Regex.lower .empty r with
    | error cause => rw [hl] at h; cases h
    | ok f =>
      rw [hl] at h
      cases h
      exact ⟨r, hr, hl⟩

theorem lowerPattern_isSound {pattern : String} {e : Expr} (h : lowerPattern pattern = .ok e) :
    e.isSound = true := by
  obtain ⟨r, hr, hl⟩ := lowerPattern_eq_ok h
  exact Regex.lower_isSound r (Regex.isNormal_parse hr) hl

/-- **A pattern gets on exactly if it does not match the empty text.** -/
theorem lowerPattern_getsOn {pattern : String} {e : Expr} (h : lowerPattern pattern = .ok e) :
    e.getsOn = true ↔ patternNullable pattern = false := by
  obtain ⟨r, hr, hl⟩ := lowerPattern_eq_ok h
  obtain ⟨k, hk, hon⟩ := Regex.lower_getsOn r (Regex.isNormal_parse hr) hl
  rw [hon]
  simp [patternNullable, hr, Regex.nullable, hk]

end GrammarKit
