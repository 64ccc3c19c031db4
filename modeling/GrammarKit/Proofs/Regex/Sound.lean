import GrammarKit.Proofs.Peg.Yields
import GrammarKit.Proofs.Regex.Matching
import GrammarKit.Proofs.Regex.Exact

/-!
# Lowering is sound

What an expression is lowered to can take nothing that the expression does not match, whatever the
choices are between. This is weaker than being exact, and holds of expressions with choices as well.

* `Plan.several_of_yields_repeated`: how often a repetition can take its body.
* `matches_of_yields_charClass`, `matches_of_yields_literal`: the leaves.
* **`matches_of_yields`**: what can be taken of an ASCII text is a match.
-/

namespace GrammarKit.Regex

open Peg Text

/-! ## Repetitions -/

section Several

variable {α β : Type} {step : α → α → Prop} {s t : α}

theorem exists_several_of_reflTransGen (h : Relation.ReflTransGen step s t) :
    ∃ n, Several step n s t := by
  induction h using Relation.ReflTransGen.head_induction_on with
  | refl => exact ⟨0, rfl⟩
  | head hstep _ ih =>
    obtain ⟨n, hn⟩ := ih
    exact ⟨n + 1, _, hstep, hn⟩

/-- Steps are carried over to other steps, as long as a property holds that they keep. -/
theorem Several.map {other : β → β → Prop} {P : α → Prop} {f : α → β}
    (hkeep : ∀ s t, P s → step s t → P t)
    (hstep : ∀ s t, P s → step s t → other (f s) (f t)) {n : Nat} (hs : P s)
    (h : Several step n s t) : Several other n (f s) (f t) := by
  induction n generalizing s with
  | zero => exact congrArg f h
  | succ n ih =>
    obtain ⟨u, hu, ht⟩ := h
    exact ⟨f u, hstep s u hs hu, ih (hkeep s u hs hu) ht⟩

end Several

section Repeated

variable {p : Plan} {s t : List Char} {least : Nat} {most : Option Nat}

theorem several_of_yields_replicate {ps : List Plan} {n : Nat}
    (h : (Plan.row (List.replicate n p ++ ps)).Yields s t) :
    ∃ u, Several p.Yields n s u ∧ (Plan.row ps).Yields u t := by
  induction n generalizing s with
  | zero => exact ⟨s, rfl, h⟩
  | succ n ih =>
    obtain ⟨u, hu, hrest⟩ := Plan.yields_row_cons h
    obtain ⟨v, hv, ht⟩ := ih hrest
    exact ⟨v, ⟨u, hu, hv⟩, ht⟩

theorem several_of_yields_optionals {n : Nat}
    (h : (Plan.row (List.replicate n (.optional p))).Yields s t) :
    ∃ k ≤ n, Several p.Yields k s t := by
  induction n generalizing s with
  | zero => exact ⟨0, Nat.le_refl 0, (Taking.text_eq_read.1 h).symm⟩
  | succ n ih =>
    obtain ⟨u, hu, hrest⟩ := Plan.yields_row_cons h
    obtain ⟨k, hk, ht⟩ := ih hrest
    rcases hu with rfl | hu
    · exact ⟨k, by omega, ht⟩
    · exact ⟨k + 1, by omega, u, hu, ht⟩

/-- **How often a repetition can take its body.** -/
theorem several_of_yields_repeated (hle : ∀ m, most = some m → least ≤ m)
    (h : (p.repeated (lowerTimes least most)).Yields s t) :
    ∃ n, least ≤ n ∧ (∀ m, most = some m → n ≤ m) ∧ Several p.Yields n s t := by
  rw [repeated_lowerTimes p hle] at h
  obtain ⟨u, hu, hrest⟩ := several_of_yields_replicate h
  cases most with
  | none =>
    obtain ⟨k, hk⟩ := exists_several_of_reflTransGen (show Relation.ReflTransGen _ _ _ from hrest)
    exact ⟨least + k, Nat.le_add_right _ _, fun m hm => (by cases hm),
      Several.append.2 ⟨u, hu, hk⟩⟩
  | some m =>
    obtain ⟨k, hle', hk⟩ := several_of_yields_optionals hrest
    have hleast := hle m rfl
    refine ⟨least + k, Nat.le_add_right _ _, ?_, Several.append.2 ⟨u, hu, hk⟩⟩
    rintro _ ⟨⟩
    omega

end Repeated

/-! ## Leaves -/

section Leaves

variable {s t : List Char} (hs : IsAscii s)

include hs

theorem matches_of_yields_literal (holds : Anchor → List UInt8 → Bool) {bytes : List UInt8}
    {w : List Char} (hw : decode? bytes = some w) (h : s = w ++ t) :
    (literal bytes).Matches holds (encode s) (encode t) := by
  have hprefix : w.isPrefixOf s = true := List.isPrefixOf_iff_prefix.2 (h ▸ List.prefix_append w t)
  have hbytes : bytes <+: encode s :=
    List.isPrefixOf_iff_prefix.1 ((isPrefixOf_encode hw hs).trans hprefix)
  have hrest : (encode s).drop bytes.length = encode t := by
    rw [drop_encode hw hs hprefix, h, List.drop_left]
  show encode s = bytes ++ encode t
  rw [← hrest, List.prefix_iff_eq_append.1 hbytes]

end Leaves

/-- **What the plan of a class can take** of an ASCII text is one of its characters. -/
theorem takes_of_yields_lowerClass {is : Intervals} (his : is.IsOrdered) {e : Expr}
    (h : lowerClass is = .ok e) {s t : List Char} (hs : IsAscii s)
    (hy : (e.plan fun _ => none).Yields s t) :
    Taking.char (fun c => is.has c.toNat) s = .read t := by
  refine forall_lowerClass (P := fun e => (e.plan fun _ => none).Yields s t →
    Taking.char (fun c => is.has c.toNat) s = .read t) (fun l r => or_imp) ?_ ?_ h hy
  · intro r hr e he hy
    obtain ⟨htakes, -⟩ := asciiPart_eq_some he (his r hr)
    have hread : (e.plan fun _ => none).takes s = .read t := by
      obtain ⟨a, rfl⟩ | ⟨a, b, rfl⟩ := asciiPart_cases he <;> exact hy
    rw [htakes] at hread
    obtain ⟨c, rfl, hc⟩ := Taking.char_eq_read.1 hread
    refine Taking.char_eq_read.2 ⟨c, rfl, List.any_eq_true.2 ⟨r, hr, ?_⟩⟩
    simp only [Bool.and_eq_true, decide_eq_true_eq] at hc ⊢
    omega
  · rintro ⟨u, hu, ht⟩
    have hread : (beyondAscii.plan fun _ => none).takes s = .read t :=
      (congrArg (Reading.bind · _) hu).trans ht
    rw [takes_beyondAscii hs] at hread
    cases hread

theorem matches_of_yields_charClass (holds : Anchor → List UInt8 → Bool) {c : CharClass}
    (hc : c.set.IsOrdered) {e : Expr} (h : lowerClass c.set = .ok e) {s t : List Char}
    (hs : IsAscii s) (hy : (e.plan fun _ => none).Yields s t) :
    (charClass c).Matches holds (encode s) (encode t) := by
  obtain ⟨d, rfl, hd⟩ := Taking.char_eq_read.1 (takes_of_yields_lowerClass hc h hs hy)
  show c.rest? (encode (d :: t)) = some (encode t)
  rw [rest?_encode c hs]
  exact if_pos hd

/-! ## Expressions -/

section Expressions

/-- A choice can take what one of its branches can take. -/
theorem exists_yields_of_firstOf {es : List Expr} (hne : es ≠ []) {s t : List Char}
    (h : ((Expr.firstOf es).plan fun _ => none).Yields s t) :
    ∃ e ∈ es, (e.plan fun _ => none).Yields s t := by
  by_contra hno
  exact (Expr.firstOf_iff (P := fun e => ¬ (e.plan fun _ => none).Yields s t) (fun l r => not_or)
    fun hnil => absurd hnil hne).2 (fun e he hy => hno ⟨e, he, hy⟩) h

variable (holds : Anchor → List UInt8 → Bool)

mutual

/-- **What can be taken of an ASCII text is a match.** -/
theorem matches_of_yields {follow : ByteSet} (r : Regex) (hr : r.IsNormal) {e : Expr}
    (h : lower follow r = .ok e) {s t : List Char} (hs : IsAscii s)
    (hy : (e.plan fun _ => none).Yields s t) : r.Matches holds (encode s) (encode t) := by
  cases r with
  | empty =>
    cases h
    exact congrArg encode (Taking.text_eq_read.1 hy).symm
  | literal bytes =>
    rw [lower] at h
    split at h <;> cases h
    rename_i w hw
    have htext := Taking.text_eq_read.1 hy
    rw [String.toList_ofList] at htext
    exact matches_of_yields_literal hs holds hw htext
  | charClass c => exact matches_of_yields_charClass holds hr h hs hy
  | look a => cases h
  | repetition body least most greedy =>
    rw [lower] at h
    split at h
    · cases h
    · split at h
      · cases h
      · obtain ⟨f, hf, h⟩ := bind_ok h
        cases h
        rw [(lower_isLexical body hf).plan_repeated rfl] at hy
        obtain ⟨n, hleast, hmost, hn⟩ :=
          several_of_yields_repeated (fun m hm => (hr.2.most_le m hm).1) hy
        exact ⟨n, hleast, hmost, hn.map (P := IsAscii)
          (fun _ _ hs hy => hs.of_suffix hy.suffix)
          (fun _ _ hs hy => matches_of_yields body hr.1 hf hs hy) hs⟩
  | capture index body => exact matches_of_yields body hr h hs hy
  | concat parts =>
    obtain ⟨es, hes, h⟩ := bind_ok h
    cases h
    exact matchesSeq_of_yields parts hr hes hs ((Expr.tracks_sequence es).yields s t hy)
  | alternation branches =>
    obtain ⟨es, hes, h⟩ := bind_ok h
    cases h
    have hne := (lowerAny_getsOn branches hr.1 hr.2 hes).1
    obtain ⟨e, he, hy⟩ := exists_yields_of_firstOf hne hy
    exact matchesAny_of_yields branches hr.2 hes hs he hy

theorem matchesSeq_of_yields {follow : ByteSet} (rs : List Regex) (hrs : AllNormal rs)
    {es : List Expr} (h : lowerSeq follow rs = .ok es) {s t : List Char} (hs : IsAscii s)
    (hy : (planRow es).Yields s t) : MatchesSeq holds rs (encode s) (encode t) := by
  cases rs with
  | nil =>
    cases h
    exact congrArg encode (Taking.text_eq_read.1 hy).symm
  | cons r rs =>
    obtain ⟨e, he, h⟩ := bind_ok h
    obtain ⟨es, hes, h⟩ := bind_ok h
    cases h
    obtain ⟨u, hu, ht⟩ := Plan.yields_row_cons hy
    exact ⟨encode u, matches_of_yields r hrs.1 he hs hu,
      matchesSeq_of_yields rs hrs.2 hes (hs.of_suffix hu.suffix) ht⟩

theorem matchesAny_of_yields {follow : ByteSet} (rs : List Regex) (hrs : AllNormal rs)
    {es : List Expr} (h : lowerAny follow rs = .ok es) {s t : List Char} (hs : IsAscii s) {e : Expr}
    (he : e ∈ es) (hy : (e.plan fun _ => none).Yields s t) :
    MatchesAny holds rs (encode s) (encode t) := by
  cases rs with
  | nil =>
    cases h
    cases he
  | cons r rs =>
    obtain ⟨f, hf, h⟩ := bind_ok h
    obtain ⟨fs, hfs, h⟩ := bind_ok h
    cases h
    obtain rfl | he := List.mem_cons.1 he
    · exact .inl (matches_of_yields r hrs.1 hf hs hy)
    · exact .inr (matchesAny_of_yields rs hrs.2 hfs hs he hy)

end

end Expressions

end GrammarKit.Regex
