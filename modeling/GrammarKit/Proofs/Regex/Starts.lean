import GrammarKit.Proofs.Regex.ByteWords
import GrammarKit.Proofs.Regex.Matching
import GrammarKit.Proofs.Text.Utf8

/-!
# What a match starts with

The bytes with which an expression can start cover all of its matches, and the least length tells
whether it matches nothing. Both hold of every expression in which each leaf stands for some text,
and no other expression is lowered.

* `Regex.IsConcrete`: expressions without anchors and without empty classes.
* `matches_self_iff`: which expressions match nothing.
* `has_firstBytes`: the byte at the front of a match.
* **`firstBytes_covers`**: both of them, and the sets of bytes that tell.
-/

namespace GrammarKit.Regex

open Peg Text

mutual

/-- **Expressions in which every leaf stands for some text**: no anchors and no empty classes. -/
def IsConcrete : Regex → Prop
  | .look _ => False
  | .charClass c => c.set ≠ []
  | .repetition body _ _ _ | .capture _ body => body.IsConcrete
  | .concat parts => AllConcrete parts
  | .alternation branches => AllConcrete branches
  | .empty | .literal _ => True

/-- All expressions are such ones. -/
def AllConcrete : List Regex → Prop
  | [] => True
  | r :: rs => r.IsConcrete ∧ AllConcrete rs

end

theorem allConcrete_iff {rs : List Regex} : AllConcrete rs ↔ ∀ r ∈ rs, r.IsConcrete := by
  induction rs with
  | nil => exact iff_of_true trivial (List.forall_mem_nil _)
  | cons r rs ih => rw [AllConcrete, ih, List.forall_mem_cons]

/-! ## What is lowered -/

mutual

/-- **Only concrete expressions are lowered.** -/
theorem isConcrete_of_lower {follow : ByteSet} (r : Regex) {e : Expr}
    (h : lower follow r = .ok e) : r.IsConcrete := by
  cases r with
  | empty | literal => exact trivial
  | charClass c => exact set_ne_nil_of_lowerClass h
  | look a => cases h
  | repetition body least most greedy =>
    rw [lower] at h
    split at h
    · cases h
    · split at h
      · cases h
      · obtain ⟨f, hf, -⟩ := bind_ok h
        exact isConcrete_of_lower body hf
  | capture index body => exact isConcrete_of_lower body h
  | concat parts =>
    obtain ⟨es, hes, -⟩ := bind_ok h
    exact allConcrete_of_lowerSeq parts hes
  | alternation branches =>
    obtain ⟨es, hes, -⟩ := bind_ok h
    exact allConcrete_of_lowerAny branches hes

theorem allConcrete_of_lowerSeq {follow : ByteSet} (rs : List Regex) {es : List Expr}
    (h : lowerSeq follow rs = .ok es) : AllConcrete rs := by
  cases rs with
  | nil => exact trivial
  | cons r rs =>
    obtain ⟨e, he, h⟩ := bind_ok h
    obtain ⟨es, hes, -⟩ := bind_ok h
    exact ⟨isConcrete_of_lower r he, allConcrete_of_lowerSeq rs hes⟩

theorem allConcrete_of_lowerAny {follow : ByteSet} (rs : List Regex) {es : List Expr}
    (h : lowerAny follow rs = .ok es) : AllConcrete rs := by
  cases rs with
  | nil => exact trivial
  | cons r rs =>
    obtain ⟨e, he, h⟩ := bind_ok h
    obtain ⟨es, hes, -⟩ := bind_ok h
    exact ⟨isConcrete_of_lower r he, allConcrete_of_lowerAny rs hes⟩

end

/-! ## Matches of nothing -/

/-- Steps that take the front of a text lead back to it only if each of them takes nothing. -/
theorem Several.self_iff {step : List UInt8 → List UInt8 → Prop} (h : LeavesEnd step) {n : Nat}
    {s : List UInt8} : Several step n s s ↔ n = 0 ∨ step s s := by
  constructor
  · cases n with
    | zero => exact fun _ => .inl rfl
    | succ n =>
      rintro ⟨u, hu, hs⟩
      have hback := h.several n hs
      exact .inr ((h hu).eq_of_length_le hback.length_le ▸ hu)
  · rintro (rfl | hs)
    · rfl
    · induction n with
      | zero => rfl
      | succ n ih => exact ⟨s, hs, ih⟩

mutual

/-- **What has text in every leaf has a least length.** -/
theorem exists_minLength (r : Regex) (hr : r.IsNormal) (hc : r.IsConcrete) :
    ∃ k, r.minLength = some k := by
  cases r with
  | empty => exact ⟨0, rfl⟩
  | literal bytes => exact ⟨bytes.length, rfl⟩
  | charClass c => exact (c.exists_minLength hc).imp fun _ hk => hk.1
  | look a => exact hc.elim
  | repetition body least most greedy =>
    obtain ⟨k, hk⟩ := exists_minLength body hr.1 hc
    exact ⟨k * least, by rw [minLength, hk, Option.map_some]⟩
  | capture index body => exact exists_minLength body hr hc
  | concat parts => exact exists_minLengthSum parts hr hc
  | alternation branches => exact exists_minLengthLeast branches hr.1 hr.2 hc

theorem exists_minLengthSum (rs : List Regex) (hrs : AllNormal rs) (hc : AllConcrete rs) :
    ∃ k, minLengthSum rs = some k := by
  cases rs with
  | nil => exact ⟨0, rfl⟩
  | cons r rs =>
    obtain ⟨k, hk⟩ := exists_minLength r hrs.1 hc.1
    obtain ⟨l, hl⟩ := exists_minLengthSum rs hrs.2 hc.2
    exact ⟨k + l, by rw [minLengthSum, hk, hl]; rfl⟩

theorem exists_minLengthLeast (rs : List Regex) (hne : rs ≠ []) (hrs : AllNormal rs)
    (hc : AllConcrete rs) : ∃ k, minLengthLeast rs = some k := by
  match rs, hne with
  | [r], _ => exact exists_minLength r hrs.1 hc.1
  | r :: q :: rs, _ =>
    obtain ⟨k, hk⟩ := exists_minLength r hrs.1 hc.1
    obtain ⟨l, hl⟩ := exists_minLengthLeast (q :: rs) (List.cons_ne_nil _ _) hrs.2 hc.2
    exact ⟨min k l, by rw [minLengthLeast_cons r (List.cons_ne_nil _ _), hk, hl]; rfl⟩

end

/-- A class takes a byte at least. -/
theorem CharClass.rest?_ne_self (c : CharClass) (s : List UInt8) : c.rest? s ≠ some s := by
  intro h
  cases c with
  | bytes set =>
    cases s with
    | nil => cases h
    | cons b s =>
      rw [rest?] at h
      split at h
      · exact List.ne_cons_self (Option.some.inj h)
      · cases h
  | chars set =>
    rw [rest?] at h
    split at h
    · rename_i d u hd
      split at h <;> cases h
      exact Nat.lt_irrefl _ (length_decodeChar? hd)
    · cases h

section Matches

variable (holds : Anchor → List UInt8 → Bool)

theorem matchesSeq_self_iff_cons {r : Regex} {rs : List Regex} {s : List UInt8} :
    MatchesSeq holds (r :: rs) s s ↔ r.Matches holds s s ∧ MatchesSeq holds rs s s := by
  constructor
  · rintro ⟨u, hu, hs⟩
    have hback := leavesEnd_matchesSeq holds rs hs
    obtain rfl := (leavesEnd_matches holds r hu).eq_of_length_le hback.length_le
    exact ⟨hu, hs⟩
  · exact fun ⟨hr, hrs⟩ => ⟨s, hr, hrs⟩

/-- The least of two least lengths is zero if one of them is. -/
theorem minLengthLeast_cons_eq_zero {r : Regex} {rs : List Regex} {k l : Nat}
    (hk : r.minLength = some k) (hl : minLengthLeast rs = some l) (hne : rs ≠ []) :
    minLengthLeast (r :: rs) = some 0 ↔ r.minLength = some 0 ∨ minLengthLeast rs = some 0 := by
  rw [minLengthLeast_cons r hne, hk, hl]
  simp only [Option.bind_eq_bind, Option.bind_some, Option.pure_def, Option.some.injEq]
  omega

mutual

/-- **Nothing is matched** exactly if the least length is zero. -/
theorem matches_self_iff (r : Regex) (hr : r.IsNormal) (hc : r.IsConcrete) (s : List UInt8) :
    r.Matches holds s s ↔ r.minLength = some 0 := by
  cases r with
  | empty => exact iff_of_true rfl rfl
  | literal bytes =>
    show s = bytes ++ s ↔ some bytes.length = some 0
    rw [List.self_eq_append_left, Option.some.injEq, List.length_eq_zero_iff]
  | charClass c =>
    obtain ⟨k, hk, hk0⟩ := c.exists_minLength hc
    refine iff_of_false (c.rest?_ne_self s) fun h => hk0 ?_
    exact Option.some.inj (hk.symm.trans h)
  | look a => exact hc.elim
  | repetition body least most greedy =>
    obtain ⟨k, hk⟩ := exists_minLength body hr.1 hc
    have hbody := matches_self_iff body hr.1 hc s
    have hends := leavesEnd_matches holds body
    rw [minLength, hk, Option.map_some, Option.some.injEq, Nat.mul_eq_zero, ← Option.some.injEq k,
      ← hk, ← hbody]
    constructor
    · rintro ⟨n, hn, -, hs⟩
      rcases (Several.self_iff hends).1 hs with rfl | hs
      · exact .inr (Nat.le_zero.1 hn)
      · exact .inl hs
    · intro h
      exact ⟨least, Nat.le_refl _, fun m hm => (hr.2.most_le m hm).1,
        (Several.self_iff hends).2 h.symm⟩
  | capture index body => exact matches_self_iff body hr hc s
  | concat parts => exact matchesSeq_self_iff parts hr hc s
  | alternation branches => exact matchesAny_self_iff branches hr.1 hr.2 hc s

theorem matchesSeq_self_iff (rs : List Regex) (hrs : AllNormal rs) (hc : AllConcrete rs)
    (s : List UInt8) : MatchesSeq holds rs s s ↔ minLengthSum rs = some 0 := by
  cases rs with
  | nil => exact iff_of_true rfl rfl
  | cons r rs =>
    rw [matchesSeq_self_iff_cons, minLengthSum_cons_eq_zero, matches_self_iff r hrs.1 hc.1 s,
      matchesSeq_self_iff rs hrs.2 hc.2 s]

theorem matchesAny_self_iff (rs : List Regex) (hne : rs ≠ []) (hrs : AllNormal rs)
    (hc : AllConcrete rs) (s : List UInt8) :
    MatchesAny holds rs s s ↔ minLengthLeast rs = some 0 := by
  match rs, hne with
  | [r], _ => exact (or_iff_left id).trans (matches_self_iff r hrs.1 hc.1 s)
  | r :: q :: rs, _ =>
    have hcons := List.cons_ne_nil q rs
    obtain ⟨k, hk⟩ := exists_minLength r hrs.1 hc.1
    obtain ⟨l, hl⟩ := exists_minLengthLeast (q :: rs) hcons hrs.2 hc.2
    rw [minLengthLeast_cons_eq_zero hk hl hcons, ← matches_self_iff r hrs.1 hc.1 s,
      ← matchesAny_self_iff (q :: rs) hcons hrs.2 hc.2 s]
    rfl

end

/-! ## First bytes -/

/-- Where steps lead to another place, one of them leaves the first place. -/
theorem Several.exists_step {α : Type} {step : α → α → Prop} {n : Nat} {s t : α}
    (h : Several step n s t) (hne : t ≠ s) : ∃ u, step s u ∧ u ≠ s := by
  induction n with
  | zero => exact absurd h hne
  | succ n ih =>
    obtain ⟨u, hu, ht⟩ := h
    by_cases hus : u = s
    · exact ih (hus ▸ ht)
    · exact ⟨u, hu, hus⟩

/-- The first byte of what a class takes. -/
theorem CharClass.has_of_rest? {c : CharClass} {b : UInt8} {s t : List UInt8}
    (h : c.rest? (b :: s) = some t) : (ByteSet.ofIntervals c.set).has b.toNat = true := by
  cases c with
  | bytes set =>
    rw [rest?] at h
    split at h
    · rename_i hset
      exact ByteSet.has_ofIntervals_of_has hset (.inl rfl) (UInt8.toNat_lt b)
    · cases h
  | chars set =>
    rw [rest?] at h
    split at h
    · rename_i d u hd
      split at h
      · rename_i hset
        refine ByteSet.has_ofIntervals_of_has hset ?_ (UInt8.toNat_lt b)
        by_cases hb : b.toNat < 0x80
        · rw [decodeChar?_ascii hb] at hd
          cases hd
          exact .inl (toNat_ofNat hb)
        · exact .inr ⟨decodeChar?_wide hb hd, Nat.le_of_not_lt hb⟩
      · cases h
    · cases h

mutual

/-- **A match starts with one of the first bytes.** -/
theorem has_firstBytes (r : Regex) (hr : r.IsNormal) (hc : r.IsConcrete) {b : UInt8}
    {w t : List UInt8} (h : r.Matches holds (b :: w) t) (hne : t ≠ b :: w) :
    (firstBytes r).has b.toNat = true := by
  cases r with
  | empty => exact absurd h hne
  | literal bytes =>
    have hw : b :: w = bytes ++ t := h
    cases bytes with
    | nil => exact absurd hw.symm hne
    | cons a bytes =>
      obtain ⟨rfl, -⟩ := List.cons.inj hw
      exact ByteSet.has_insert_self _ (UInt8.toNat_lt b)
  | charClass c => exact CharClass.has_of_rest? h
  | look a => exact hc.elim
  | repetition body least most greedy =>
    obtain ⟨n, -, -, ht⟩ := h
    obtain ⟨u, hu, hus⟩ := ht.exists_step hne
    exact has_firstBytes body hr.1 hc hu hus
  | capture index body => exact has_firstBytes body hr hc h hne
  | concat parts => exact has_firstBytesSeq parts hr hc h hne
  | alternation branches => exact has_firstBytesAny branches hr.2 hc h hne

theorem has_firstBytesSeq (rs : List Regex) (hrs : AllNormal rs) (hc : AllConcrete rs) {b : UInt8}
    {w t : List UInt8} (h : MatchesSeq holds rs (b :: w) t) (hne : t ≠ b :: w) :
    (firstBytesSeq rs).has b.toNat = true := by
  cases rs with
  | nil => exact absurd h hne
  | cons r rs =>
    obtain ⟨u, hu, ht⟩ := h
    rw [has_firstBytesSeq_cons]
    by_cases hub : u = b :: w
    · -- nothing is taken so far
      subst hub
      exact .inr ⟨(matches_self_iff holds r hrs.1 hc.1 _).1 hu,
        has_firstBytesSeq rs hrs.2 hc.2 ht hne⟩
    · exact .inl (has_firstBytes r hrs.1 hc.1 hu hub)

theorem has_firstBytesAny (rs : List Regex) (hrs : AllNormal rs) (hc : AllConcrete rs) {b : UInt8}
    {w t : List UInt8} (h : MatchesAny holds rs (b :: w) t) (hne : t ≠ b :: w) :
    (firstBytesAny rs).has b.toNat = true := by
  cases rs with
  | nil => exact h.elim
  | cons r rs =>
    rw [firstBytesAny, ByteSet.has_union, Bool.or_eq_true]
    rcases h with h | h
    · exact .inl (has_firstBytes r hrs.1 hc.1 h hne)
    · exact .inr (has_firstBytesAny rs hrs.2 hc.2 h hne)

end

end Matches

mutual

theorem isBuilt_firstBytes (r : Regex) : (firstBytes r).IsBuilt := by
  cases r with
  | empty | look => exact .empty
  | literal bytes =>
    cases bytes with
    | nil => exact .empty
    | cons b bytes => exact .insert _ _ .empty
  | charClass c => exact .ofIntervals c.set
  | repetition body least most greedy => exact isBuilt_firstBytes body
  | capture index body => exact isBuilt_firstBytes body
  | concat parts => exact isBuilt_firstBytesSeq parts
  | alternation branches => exact isBuilt_firstBytesAny branches

theorem isBuilt_firstBytesSeq (rs : List Regex) : (firstBytesSeq rs).IsBuilt := by
  cases rs with
  | nil => exact .empty
  | cons r rs =>
    rw [firstBytesSeq]
    split
    · exact (isBuilt_firstBytes r).union (isBuilt_firstBytesSeq rs)
    · exact isBuilt_firstBytes r

theorem isBuilt_firstBytesAny (rs : List Regex) : (firstBytesAny rs).IsBuilt := by
  cases rs with
  | nil => exact .empty
  | cons r rs => exact (isBuilt_firstBytes r).union (isBuilt_firstBytesAny rs)

end

/-- **First bytes cover every match.** In an expression without anchors and empty classes, a match
that takes something starts with one of the first bytes, and nothing is matched exactly if the
expression is nullable. All expressions that are read are normal, and only those without anchors and
empty classes are lowered. The sets of bytes are built of intervals, each byte of which has its
place in one of four words, and two of them have a byte in common exactly if they share an ASCII
byte or both reach beyond ASCII. -/
theorem firstBytes_covers (holds : Anchor → List UInt8 → Bool) :
    (∀ r : Regex, r.IsNormal → r.IsConcrete →
      (∀ b w t, r.Matches holds (b :: w) t → t ≠ b :: w → (firstBytes r).has b.toNat = true) ∧
      ∀ s, r.Matches holds s s ↔ r.nullable = true) ∧
    (∀ source r, parse source = .ok r → r.IsNormal) ∧
    (∀ follow r e, lower follow r = .ok e → r.IsConcrete) ∧
    (∀ r, (firstBytes r).IsBuilt) ∧
    (∀ (s : ByteSet) (first last : Nat),
      s.words.insert? first last = some (s.insert first last).words) ∧
    ∀ s t : ByteSet, s.IsBuilt → t.IsBuilt → s.words.meets t.words = s.intersects t ∧
      (s.intersects t = true ↔ (∃ n < 0x80, s.has n = true ∧ t.has n = true) ∨
        (∃ n ≥ 0x80, s.has n = true) ∧ ∃ n ≥ 0x80, t.has n = true) := by
  refine ⟨fun r hr hc => ⟨fun b w t h hne => has_firstBytes holds r hr hc h hne, fun s => ?_⟩,
    fun _ _ => isNormal_parse, fun _ r _ => isConcrete_of_lower r, isBuilt_firstBytes,
    ByteSet.insert?_words,
    fun s t _ ht => ⟨ByteSet.meets_words s t, ByteSet.intersects_iff ht⟩⟩
  rw [matches_self_iff holds r hr hc, nullable, beq_iff_eq]

/-- Digits that may be missing, and a letter of two bytes behind them. -/
def digitsThenLetter : Regex := .concat
  [.repetition (.charClass (.bytes [(0x30, 0x39)])) 0 none true, .literal [0xC3, 0xA9]]

/-- A letter beyond ASCII, in front of which no digit stands. -/
theorem firstBytes_covers_digitsThenLetter :
    (digitsThenLetter.Matches (fun _ _ => false) [0xC3, 0xA9] [] ∧
      (firstBytes digitsThenLetter).has 0xC3 = true ∧
      ¬ digitsThenLetter.Matches (fun _ _ => false) [] []) ∧
    parse "[0-9]*é" = .ok digitsThenLetter ∧
    (∃ e, lower .empty digitsThenLetter = .ok e) ∧
    (firstBytes digitsThenLetter).intersects (firstBytes digitsThenLetter) = true := by
  have hread : parse "[0-9]*é" = .ok digitsThenLetter := rfl
  have hlower : lower .empty digitsThenLetter =
      .ok (.seq (.repeated (.range '0' '9') .star) (.text "é")) := by
    decide +kernel
  have hmatches : digitsThenLetter.Matches (fun _ _ => false) [0xC3, 0xA9] [] :=
    ⟨[0xC3, 0xA9], ⟨0, Nat.le_refl 0, by simp, rfl⟩, [], rfl, rfl⟩
  obtain ⟨hmatch, hnormal, hconcrete, hbuilt, -, hmeets⟩ := firstBytes_covers fun _ _ => false
  have hnormal := hnormal _ digitsThenLetter hread
  have hconcrete := hconcrete _ digitsThenLetter _ hlower
  obtain ⟨hfirst, hself⟩ := hmatch digitsThenLetter hnormal hconcrete
  have hhas : (firstBytes digitsThenLetter).has 0xC3 = true :=
    hfirst 0xC3 [0xA9] [] hmatches (List.cons_ne_nil _ _).symm
  have hbuilt := hbuilt digitsThenLetter
  refine ⟨⟨hmatches, hhas, fun h => ?_⟩, hread, ⟨_, hlower⟩, ?_⟩
  · exact absurd ((hself []).1 h) (by decide)
  · exact (hmeets _ _ hbuilt hbuilt).2.2 (.inr ⟨⟨0xC3, by decide, hhas⟩, 0xC3, by decide, hhas⟩)

end GrammarKit.Regex
