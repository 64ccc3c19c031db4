import GrammarKit.Proofs.Regex.Progress
import GrammarKit.Regex.Choices

/-!
# First bytes

An expression is lowered only if the next byte tells whether each of its loops goes on. So what may
match nothing is never repeated, unless it matches nothing else or a choice in it is left open.

* `ByteSet.has_union`, `ByteSet.has_ofIntervals`: which bytes the sets hold.
* `has_followBeforeAll`: what may come next, by what stands behind.
* `not_nullable_of_settles`: branches that settle a choice.
* `Lowers`: what it takes to lower expressions with such choices, one after the other.
* **`Lowers.maxLength_eq_zero`**: what may match nothing where it may be repeated.
-/

namespace GrammarKit.Regex

open Peg

/-! ## Sets of bytes -/

theorem Intervals.has_cons (r : Nat × Nat) (is : Intervals) (n : Nat) :
    Intervals.has (r :: is) n = (r.1 ≤ n && n ≤ r.2 || is.has n) := rfl

namespace ByteSet

variable {s t : ByteSet} {n : Nat}

@[simp] theorem has_empty (n : Nat) : empty.has n = false := by
  simp [has, empty]

@[simp] theorem has_union (s t : ByteSet) (n : Nat) : (s.union t).has n = (s.has n || t.has n) :=
  BitVec.getLsbD_or

/-- Sets without a byte in common. -/
theorem not_has_of_intersects (h : s.intersects t = false) (hs : s.has n = true) :
    t.has n = false := by
  have hzero : s.bits &&& t.bits = 0 := by simpa [intersects] using h
  have hbit : (s.bits &&& t.bits).getLsbD n = false := by rw [hzero]; exact BitVec.getLsbD_zero
  rw [BitVec.getLsbD_and] at hbit
  simpa [has, show s.bits.getLsbD n = true from hs] using hbit

theorem getLsbD_span (first count : Nat) :
    (span first count).getLsbD n = decide (first ≤ n ∧ n < first + count ∧ n < 256) := by
  induction count with
  | zero =>
    rw [span, eq_comm, decide_eq_false (by omega)]
    exact BitVec.getLsbD_zero.symm
  | succ count ih =>
    rw [span, BitVec.getLsbD_or, ih, BitVec.getLsbD_twoPow, ← Bool.decide_and, ← Bool.decide_or]
    exact decide_eq_decide.2 (by omega)

/-- The bytes of an interval are in the set, as far as they are ASCII. -/
theorem has_insert (s : ByteSet) {first last : Nat} (hn : n < 0x80) :
    (s.insert first last).has n = (s.has n || decide (first ≤ n ∧ n ≤ last)) := by
  rw [insert, has, BitVec.getLsbD_or, getLsbD_span]
  refine congrArg (s.has n || ·) (decide_eq_decide.2 ?_)
  simp only [bucket]
  split_ifs <;> omega

/-- The bytes beyond ASCII are in the set if the interval reaches there. -/
theorem has_insert_wide (s : ByteSet) {first last : Nat} (hn : 0x80 ≤ n) (hn' : n < 0x100) :
    (s.insert first last).has n = (s.has n || decide (0x7F < last)) := by
  rw [insert, has, BitVec.getLsbD_or, getLsbD_span]
  refine congrArg (s.has n || ·) (decide_eq_decide.2 ?_)
  simp only [bucket]
  split_ifs <;> omega

theorem has_insert_self (s : ByteSet) (hn : n < 0x100) : (s.insert n n).has n = true := by
  by_cases hwide : n < 0x80
  · rw [has_insert s hwide, decide_eq_true ⟨Nat.le_refl n, Nat.le_refl n⟩, Bool.or_true]
  · rw [has_insert_wide s (Nat.le_of_not_lt hwide) hn, decide_eq_true (by omega), Bool.or_true]

/-- An interval with a member adds a byte. -/
theorem exists_has_insert (s : ByteSet) {first last : Nat} (h : first ≤ last) :
    ∃ n, (s.insert first last).has n = true := by
  refine ⟨(bucket first last).1, ?_⟩
  rw [insert, has, BitVec.getLsbD_or, getLsbD_span, Bool.or_eq_true, decide_eq_true_eq]
  right
  simp only [bucket]
  split_ifs <;> omega

theorem has_insert_of_has {first last : Nat} (h : s.has n = true) :
    (s.insert first last).has n = true := by
  rw [insert, has, BitVec.getLsbD_or, show s.bits.getLsbD n = true from h, Bool.true_or]

/-- The bytes of intervals, given what a single interval adds. -/
theorem has_ofIntervals_eq_any {p : Nat × Nat → Bool}
    (hp : ∀ (s : ByteSet) (r : Nat × Nat), (s.insert r.1 r.2).has n = (s.has n || p r))
    (is : Intervals) : (ofIntervals is).has n = is.any p := by
  have hfoldl (is : Intervals) (s : ByteSet) :
      (is.foldl (fun t r => t.insert r.1 r.2) s).has n = (s.has n || is.any p) := by
    induction is generalizing s with
    | nil => simp
    | cons r is ih => rw [List.foldl_cons, ih, hp, Bool.or_assoc, List.any_cons]
  rw [ofIntervals, hfoldl, has_empty, Bool.false_or]

theorem has_ofIntervals {is : Intervals} (hn : n < 0x80) : (ofIntervals is).has n = is.has n := by
  refine has_ofIntervals_eq_any (fun s r => ?_) is
  rw [has_insert s hn, Bool.decide_and]

/-- Intervals with members hold a byte. -/
theorem exists_has_ofIntervals {is : Intervals} (hne : is ≠ []) (h : is.IsOrdered) :
    ∃ n, (ofIntervals is).has n = true := by
  have hkeeps (is : Intervals) {s : ByteSet} (hs : ∃ n, s.has n = true) :
      ∃ n, (is.foldl (fun t r => t.insert r.1 r.2) s).has n = true := by
    induction is generalizing s with
    | nil => exact hs
    | cons r is ih => exact ih (hs.imp fun _ => has_insert_of_has)
  obtain ⟨r, is, rfl⟩ := List.exists_cons_of_ne_nil hne
  exact hkeeps is (exists_has_insert empty (h r List.mem_cons_self))

end ByteSet

/-! ## Lengths and first bytes of sequences -/

section Sequences

variable (r : Regex) (rs : List Regex)

theorem minLengthSum_singleton : minLengthSum [r] = r.minLength := by
  rw [minLengthSum, minLengthSum]
  cases r.minLength <;> rfl

theorem maxLengthSum_singleton : maxLengthSum [r] = r.maxLength := by
  rw [maxLengthSum, maxLengthSum]
  cases r.maxLength <;> rfl

/-- Several expressions match nothing if all of them do. -/
theorem minLengthSum_cons_eq_zero :
    minLengthSum (r :: rs) = some 0 ↔ r.minLength = some 0 ∧ minLengthSum rs = some 0 := by
  rw [minLengthSum]
  cases r.minLength <;> cases minLengthSum rs <;> simp

/-- Several expressions match nothing but the empty text if all of them do. -/
theorem maxLengthSum_cons_eq_zero :
    maxLengthSum (r :: rs) = some 0 ↔ r.maxLength = some 0 ∧ maxLengthSum rs = some 0 := by
  rw [maxLengthSum]
  cases r.maxLength <;> cases maxLengthSum rs <;> simp

theorem has_firstBytesSeq_cons (n : Nat) :
    (firstBytesSeq (r :: rs)).has n = true ↔
      (firstBytes r).has n = true ∨ r.minLength = some 0 ∧ (firstBytesSeq rs).has n = true := by
  rw [firstBytesSeq, nullable]
  by_cases hr : r.minLength = some 0 <;> simp [hr]

theorem has_firstBytesSeq_singleton (n : Nat) :
    (firstBytesSeq [r]).has n = (firstBytes r).has n := by
  rw [Bool.eq_iff_iff, has_firstBytesSeq_cons]
  simp [firstBytesSeq]

/-- What may follow expressions in front of it. -/
theorem has_followBeforeAll (follow : ByteSet) (n : Nat) :
    (followBeforeAll rs follow).has n = true ↔
      (firstBytesSeq rs).has n = true ∨ minLengthSum rs = some 0 ∧ follow.has n = true := by
  induction rs with
  | nil => simp [followBeforeAll, firstBytesSeq, minLengthSum]
  | cons r rs ih =>
    rw [has_firstBytesSeq_cons, minLengthSum_cons_eq_zero]
    show (followBefore r (followBeforeAll rs follow)).has n = true ↔ _
    rw [followBefore, nullable]
    by_cases hr : r.minLength = some 0
    · simp only [hr, beq_self_eq_true, if_true, ByteSet.has_union, Bool.or_eq_true, ih]
      tauto
    · simp [hr]

end Sequences

/-! ## Lengths of choices -/

section Choices

variable (r : Regex) {rs : List Regex} (hne : rs ≠ [])

include hne

theorem minLengthLeast_cons :
    minLengthLeast (r :: rs) = do return min (← r.minLength) (← minLengthLeast rs) := by
  cases rs with
  | nil => exact absurd rfl hne
  | cons q rs => rfl

theorem maxLengthGreatest_cons :
    maxLengthGreatest (r :: rs) = do return max (← r.maxLength) (← maxLengthGreatest rs) := by
  cases rs with
  | nil => exact absurd rfl hne
  | cons q rs => rfl

end Choices

/-- A choice matches nothing only if one of its branches does. -/
theorem exists_nullable_of_minLengthLeast {rs : List Regex} (h : minLengthLeast rs = some 0) :
    ∃ r ∈ rs, r.minLength = some 0 := by
  induction rs with
  | nil => cases h
  | cons r rs ih =>
    by_cases hne : rs = []
    · subst hne
      exact ⟨r, List.mem_cons_self, h⟩
    · rw [minLengthLeast_cons r hne] at h
      simp only [Option.bind_eq_bind, Option.bind_eq_some_iff, Option.pure_def] at h
      obtain ⟨k, hk, l, hl, hmin⟩ := h
      rcases Nat.min_eq_zero_iff.1 (Option.some.inj hmin) with rfl | rfl
      · exact ⟨r, List.mem_cons_self, hk⟩
      · obtain ⟨q, hq, hnull⟩ := ih hl
        exact ⟨q, List.mem_cons_of_mem r hq, hnull⟩

/-! ## Choices that are settled -/

section Settles

variable {follow : ByteSet} {r q : Regex}

theorem settles_cases (h : settles follow r q = true) :
    (∃ as bs, r = .literal as ∧ q = .literal bs ∧ literalSettles follow as bs = true) ∨
      r.minLength ≠ some 0 ∧ (firstBytes r).intersects (followBefore q follow) = false := by
  unfold settles at h
  split at h
  · exact .inl ⟨_, _, rfl, rfl, h⟩
  · right
    simpa [nullable] using h

/-- **A branch that settles a choice** takes a byte. -/
theorem not_nullable_of_settles (h : settles follow r q = true) : r.minLength ≠ some 0 := by
  obtain ⟨as, bs, rfl, -, h⟩ | ⟨hr, -⟩ := settles_cases h
  · cases as with
    | nil => cases h
    | cons a as => exact fun hzero => Nat.succ_ne_zero _ (Option.some.inj hzero)
  · exact hr

/-- Where a later branch may match nothing, what follows cannot start as the branch does. -/
theorem not_follow_of_settles (h : settles follow r q = true) (hq : q.minLength = some 0)
    (hsub : ∀ n, (firstBytes r).has n = true → follow.has n = true) (n : Nat) :
    (firstBytes r).has n = false := by
  obtain ⟨as, bs, rfl, rfl, h⟩ | ⟨-, happart⟩ := settles_cases h
  · obtain rfl : bs = [] := List.eq_nil_of_length_eq_zero (Option.some.inj hq)
    cases as with
    | nil => cases h
    | cons a as =>
      have hno : (!follow.has a.toNat) = true := h
      rw [hsub _ (ByteSet.has_insert_self _ (UInt8.toNat_lt a))] at hno
      cases hno
  · rw [Bool.eq_false_iff]
    intro hn
    have hno := ByteSet.not_has_of_intersects happart hn
    rw [followBefore, if_pos (by rw [nullable, hq]; rfl), ByteSet.has_union, hsub n hn,
      Bool.or_true] at hno
    cases hno

end Settles

mutual

/-- Where there is no choice, none is left open. -/
theorem decidesChoices_of_hasNoChoice (r : Regex) (h : r.HasNoChoice) (follow : ByteSet) :
    decidesChoices follow r = true := by
  cases r with
  | empty | literal | charClass | look => rfl
  | repetition body _ _ _ => exact decidesChoices_of_hasNoChoice body h _
  | capture _ body => exact decidesChoices_of_hasNoChoice body h follow
  | concat parts => exact decidesSeq_of_allWithoutChoice parts h follow
  | alternation => exact h.elim

theorem decidesSeq_of_allWithoutChoice (rs : List Regex) (h : AllWithoutChoice rs)
    (follow : ByteSet) : decidesSeq follow rs = true := by
  cases rs with
  | nil => rfl
  | cons r rs =>
    rw [decidesSeq, Bool.and_eq_true]
    exact ⟨decidesChoices_of_hasNoChoice r h.1 _, decidesSeq_of_allWithoutChoice rs h.2 follow⟩

end

/-! ## What is lowered -/

/-- **What it takes to lower expressions whose choices are settled at once**, one after the other,
where bytes of `follow` may come behind them. -/
inductive Lowers : (follow : ByteSet) → List Regex → List Expr → Prop
  | nil {follow : ByteSet} : Lowers follow [] []
  | cons {follow : ByteSet} {r : Regex} {rs : List Regex} {e : Expr} {es : List Expr} :
      Lowers (followBeforeAll rs follow) [r] [e] → Lowers follow rs es →
      Lowers follow (r :: rs) (e :: es)
  | empty {follow : ByteSet} : Lowers follow [.empty] [.text ""]
  | literal {follow : ByteSet} {bytes : List UInt8} {s : List Char} :
      Text.decode? bytes = some s → Lowers follow [.literal bytes] [.text (String.ofList s)]
  | charClass {follow : ByteSet} {c : CharClass} {e : Expr} :
      c.set.IsOrdered → lowerClass c.set = .ok e → Lowers follow [.charClass c] [e]
  | repetition {follow : ByteSet} {body : Regex} {least : Nat} {most : Option Nat} {e : Expr} :
      Lowers ((firstBytes body).union follow) [body] [e] → RepeatsInOrder body least most →
      (most ≠ some least → (firstBytes body).intersects follow = false) →
      Lowers follow [.repetition body least most true] [.repeated e (lowerTimes least most)]
  | capture {follow : ByteSet} {index : Nat} {body : Regex} {e : Expr} :
      Lowers follow [body] [e] → Lowers follow [.capture index body] [e]
  | concat {follow : ByteSet} {parts : List Regex} {es : List Expr} :
      Lowers follow parts es → Lowers follow [.concat parts] [.sequence es]
  | lastBranch {follow : ByteSet} {r : Regex} {e : Expr} :
      Lowers follow [r] [e] → Lowers follow [.alternation [r]] [.firstOf [e]]
  | branch {follow : ByteSet} {r : Regex} {rs : List Regex} {e : Expr} {es : List Expr} :
      Lowers follow [r] [e] → Lowers follow [.alternation rs] [.firstOf es] → rs ≠ [] → es ≠ [] →
      (follow = .empty ∨ ∀ q ∈ rs, settles follow r q = true) →
      Lowers follow [.alternation (r :: rs)] [.firstOf (e :: es)]

mutual

/-- **What is lowered where choices are settled at once** takes these steps. -/
theorem lowers_of_decidesChoices {follow : ByteSet} (r : Regex) (hr : r.IsNormal)
    (hd : decidesChoices follow r = true) {e : Expr} (h : lower follow r = .ok e) :
    Lowers follow [r] [e] := by
  cases r with
  | empty =>
    cases h
    exact .empty
  | literal bytes =>
    rw [lower] at h
    split at h <;> cases h
    rename_i s hs
    exact .literal hs
  | charClass c => exact .charClass hr h
  | look a => cases h
  | repetition body least most greedy =>
    rw [lower] at h
    split at h
    · cases h
    · rename_i hgreedy
      obtain rfl : greedy = true := by simpa using hgreedy
      split at h
      · cases h
      · rename_i happart
        obtain ⟨f, hf, h⟩ := bind_ok h
        cases h
        refine .repetition (lowers_of_decidesChoices body hr.1 hd hf) hr.2 fun hmost => ?_
        exact Bool.eq_false_iff.2 fun h => happart ⟨hmost, h⟩
  | capture index body => exact .capture (lowers_of_decidesChoices body hr hd h)
  | concat parts =>
    obtain ⟨es, hes, h⟩ := bind_ok h
    cases h
    exact .concat (lowers_of_decidesSeq parts hr hd hes)
  | alternation branches =>
    obtain ⟨es, hes, h⟩ := bind_ok h
    cases h
    exact (lowers_of_decidesBranches branches hr.1 hr.2 hd hes).2

theorem lowers_of_decidesSeq {follow : ByteSet} (rs : List Regex) (hrs : AllNormal rs)
    (hd : decidesSeq follow rs = true) {es : List Expr} (h : lowerSeq follow rs = .ok es) :
    Lowers follow rs es := by
  cases rs with
  | nil =>
    cases h
    exact .nil
  | cons r rs =>
    rw [decidesSeq, Bool.and_eq_true] at hd
    obtain ⟨e, he, h⟩ := bind_ok h
    obtain ⟨es, hes, h⟩ := bind_ok h
    cases h
    exact .cons (lowers_of_decidesChoices r hrs.1 hd.1 he) (lowers_of_decidesSeq rs hrs.2 hd.2 hes)

theorem lowers_of_decidesBranches {follow : ByteSet} (rs : List Regex) (hne : rs ≠ [])
    (hrs : AllNormal rs) (hd : decidesBranches follow rs = true) {es : List Expr}
    (h : lowerAny follow rs = .ok es) :
    es ≠ [] ∧ Lowers follow [.alternation rs] [.firstOf es] := by
  cases rs with
  | nil => exact absurd rfl hne
  | cons r rs =>
    simp only [decidesBranches, Bool.and_eq_true, Bool.or_eq_true, decide_eq_true_eq,
      List.all_eq_true] at hd
    obtain ⟨⟨hsettles, hd⟩, hds⟩ := hd
    obtain ⟨e, he, h⟩ := bind_ok h
    obtain ⟨es, hes, h⟩ := bind_ok h
    cases h
    have hfirst := lowers_of_decidesChoices r hrs.1 hd he
    refine ⟨List.cons_ne_nil e es, ?_⟩
    by_cases hlast : rs = []
    · subst hlast
      cases hes
      exact .lastBranch hfirst
    · obtain ⟨hesne, hlater⟩ := lowers_of_decidesBranches rs hlast hrs.2 hds hes
      exact .branch hfirst hlater hlast hesne hsettles

end

/-- **What is lowered without a choice** takes these steps. -/
theorem lowers_of_lower {follow : ByteSet} (r : Regex) (hr : r.IsNormal) (hc : r.HasNoChoice)
    {e : Expr} (h : lower follow r = .ok e) : Lowers follow [r] [e] :=
  lowers_of_decidesChoices r hr (decidesChoices_of_hasNoChoice r hc follow) h

namespace Lowers

variable {follow : ByteSet} {rs : List Regex} {es : List Expr}

theorem isLexical (h : Lowers follow rs es) : ∀ e ∈ es, e.IsLexical := by
  induction h with
  | nil => exact List.forall_mem_nil _
  | cons _ _ ih ihs => exact List.forall_mem_cons.2 ⟨ih _ List.mem_cons_self, ihs⟩
  | empty | literal => exact List.forall_mem_singleton.2 trivial
  | charClass _ hc => exact List.forall_mem_singleton.2 (lowerClass_isLexical hc)
  | @repetition _ _ _ _ e _ _ _ ih =>
    have he : e.IsLexical := ih e List.mem_cons_self
    exact List.forall_mem_singleton.2 he
  | capture _ ih => exact ih
  | concat _ ih => exact List.forall_mem_singleton.2 (Expr.isLexical_sequence ih)
  | lastBranch _ ih => exact List.forall_mem_singleton.2 (Expr.isLexical_firstOf ih)
  | branch _ _ _ hne _ ih ihs =>
    exact List.forall_mem_singleton.2 ((Expr.firstOf_cons_iff (fun _ _ => Iff.rfl) hne).2
      ⟨ih _ List.mem_cons_self, ihs _ List.mem_cons_self⟩)

/-! ### Lengths -/

/-- What starts with no byte matches nothing but the empty text. -/
theorem lengths_eq_zero (h : Lowers follow rs es) (hfirst : ∀ n, (firstBytesSeq rs).has n = false) :
    minLengthSum rs = some 0 ∧ maxLengthSum rs = some 0 := by
  induction h with
  | nil => exact ⟨rfl, rfl⟩
  | @cons _ r rs _ _ _ _ ih ihs =>
    have hcons (n : Nat) := mt (has_firstBytesSeq_cons r rs n).2 (by simp [hfirst])
    obtain ⟨hmin, hmax⟩ := ih fun n => by
      rw [has_firstBytesSeq_singleton]
      exact Bool.eq_false_iff.2 fun hn => hcons n (.inl hn)
    rw [minLengthSum_singleton] at hmin
    rw [maxLengthSum_singleton] at hmax
    obtain ⟨hmins, hmaxs⟩ := ihs fun n => Bool.eq_false_iff.2 fun hn => hcons n (.inr ⟨hmin, hn⟩)
    exact ⟨(minLengthSum_cons_eq_zero r rs).2 ⟨hmin, hmins⟩,
      (maxLengthSum_cons_eq_zero r rs).2 ⟨hmax, hmaxs⟩⟩
  | empty => exact ⟨rfl, rfl⟩
  | @literal _ bytes =>
    cases bytes with
    | nil => exact ⟨rfl, rfl⟩
    | cons b bytes =>
      obtain ⟨n, hn⟩ := ByteSet.exists_has_insert .empty (Nat.le_refl b.toNat)
      have hno := hfirst n
      rw [has_firstBytesSeq_singleton, firstBytes, hn] at hno
      cases hno
  | @charClass _ c _ hc he =>
    obtain ⟨n, hn⟩ := ByteSet.exists_has_ofIntervals (set_ne_nil_of_lowerClass he) hc
    have hno := hfirst n
    rw [has_firstBytesSeq_singleton, firstBytes, hn] at hno
    cases hno
  | @repetition _ body least most _ _ horder _ ih =>
    obtain ⟨hmin, hmax⟩ := ih fun n => by
      have hno := hfirst n
      rwa [has_firstBytesSeq_singleton] at hno ⊢
    rw [minLengthSum_singleton] at hmin ⊢
    rw [maxLengthSum_singleton] at hmax ⊢
    cases most with
    | none => exact absurd hmax (horder.body_pos rfl)
    | some m =>
      rw [minLength, maxLength, hmin, hmax]
      simp
  | @capture _ _ body _ _ ih =>
    obtain ⟨hmin, hmax⟩ := ih fun n => by
      have hno := hfirst n
      rwa [has_firstBytesSeq_singleton] at hno ⊢
    rw [minLengthSum_singleton] at hmin ⊢
    rw [maxLengthSum_singleton] at hmax ⊢
    exact ⟨hmin, hmax⟩
  | @concat _ parts _ _ ih =>
    rw [minLengthSum_singleton, maxLengthSum_singleton]
    exact ih fun n => by
      have hno := hfirst n
      rwa [has_firstBytesSeq_singleton] at hno
  | @lastBranch _ r _ _ ih =>
    have hlast := ih fun n => by
      have hno := hfirst n
      rw [has_firstBytesSeq_singleton, firstBytes, firstBytesAny, ByteSet.has_union,
        Bool.or_eq_false_iff] at hno
      rw [has_firstBytesSeq_singleton, hno.1]
    rw [minLengthSum_singleton, maxLengthSum_singleton] at hlast ⊢
    exact hlast
  | @branch _ r rs _ _ _ _ hne _ _ ih ihs =>
    have hno (n : Nat) : (firstBytes r).has n = false ∧ (firstBytesAny rs).has n = false := by
      have hno := hfirst n
      rwa [has_firstBytesSeq_singleton, firstBytes, firstBytesAny, ByteSet.has_union,
        Bool.or_eq_false_iff] at hno
    have hr := ih fun n => (has_firstBytesSeq_singleton r n).trans (hno n).1
    have hrs := ihs fun n => (has_firstBytesSeq_singleton _ n).trans (hno n).2
    rw [minLengthSum_singleton, maxLengthSum_singleton] at hr hrs ⊢
    rw [minLength, maxLength] at hrs ⊢
    rw [minLengthLeast_cons r hne, maxLengthGreatest_cons r hne, hr.1, hr.2, hrs.1, hrs.2]
    exact ⟨rfl, rfl⟩

/-- **What may match nothing where it may be repeated** matches nothing else. -/
theorem maxLength_eq_zero (h : Lowers follow rs es) (hmin : minLengthSum rs = some 0)
    (hfollow : ∀ n, (firstBytesSeq rs).has n = true → follow.has n = true) :
    maxLengthSum rs = some 0 := by
  induction h with
  | nil => rfl
  | @cons follow r rs _ _ _ _ ih ihs =>
    obtain ⟨hr, hrs⟩ := (minLengthSum_cons_eq_zero r rs).1 hmin
    have hcons (n : Nat) := hfollow n ∘ (has_firstBytesSeq_cons r rs n).2
    have hmax := ih ((minLengthSum_singleton r).trans hr) fun n hn => by
      rw [has_firstBytesSeq_singleton] at hn
      exact (has_followBeforeAll rs follow n).2 (.inr ⟨hrs, hcons n (.inl hn)⟩)
    rw [maxLengthSum_singleton] at hmax
    have hmaxs := ihs hrs fun n hn => hcons n (.inr ⟨hr, hn⟩)
    exact (maxLengthSum_cons_eq_zero r rs).2 ⟨hmax, hmaxs⟩
  | empty => rfl
  | @literal _ bytes =>
    rw [minLengthSum_singleton] at hmin
    rw [maxLengthSum_singleton]
    exact hmin
  | @charClass _ c _ _ he =>
    obtain ⟨k, hk, hk0⟩ := c.exists_minLength (set_ne_nil_of_lowerClass he)
    rw [minLengthSum_singleton, minLength, hk] at hmin
    exact absurd (Option.some.inj hmin) hk0
  | @repetition follow body least most _ hbody horder happart ih =>
    rw [minLengthSum_singleton, minLength, Option.map_eq_some_iff] at hmin
    obtain ⟨k, hk, hk0⟩ := hmin
    have hfollow (n : Nat) (hn : (firstBytes body).has n = true) : follow.has n = true :=
      hfollow n ((has_firstBytesSeq_singleton _ n).trans hn)
    have hmax : body.maxLength = some 0 := by
      rw [← maxLengthSum_singleton]
      by_cases hmost : most = some least
      · -- a fixed number of times, and not none: the body may match nothing
        have hleast : least ≠ 0 := fun h0 => horder.most_pos (h0 ▸ hmost)
        obtain rfl : k = 0 := (Nat.mul_eq_zero.1 hk0).resolve_right hleast
        refine ih ((minLengthSum_singleton body).trans hk) fun n hn => ?_
        rw [has_firstBytesSeq_singleton] at hn
        rw [ByteSet.has_union, hn, Bool.true_or]
      · -- what the body starts with may follow, but must not
        refine (hbody.lengths_eq_zero fun n => ?_).2
        rw [has_firstBytesSeq_singleton, Bool.eq_false_iff]
        intro hn
        have hno := ByteSet.not_has_of_intersects (happart hmost) hn
        rw [hfollow n hn] at hno
        cases hno
    cases most with
    | none => exact absurd hmax (horder.body_pos rfl)
    | some m =>
      rw [maxLengthSum_singleton, maxLength, hmax]
      simp
  | @capture _ _ body _ _ ih =>
    rw [minLengthSum_singleton] at hmin ih
    rw [maxLengthSum_singleton] at ih ⊢
    refine ih hmin fun n hn => hfollow n ?_
    rwa [has_firstBytesSeq_singleton] at hn ⊢
  | @concat _ parts _ _ ih =>
    rw [minLengthSum_singleton] at hmin
    rw [maxLengthSum_singleton]
    refine ih hmin fun n hn => hfollow n ?_
    rwa [has_firstBytesSeq_singleton]
  | @lastBranch _ r _ _ ih =>
    rw [minLengthSum_singleton] at hmin ih
    rw [maxLengthSum_singleton] at ih ⊢
    refine ih hmin fun n hn => hfollow n ?_
    rw [has_firstBytesSeq_singleton] at hn ⊢
    rw [firstBytes, firstBytesAny, ByteSet.has_union, hn, Bool.true_or]
  | @branch follow r rs _ _ hfirst hlater hne hes hsettles ih ihs =>
    have hr (n : Nat) (hn : (firstBytes r).has n = true) : follow.has n = true := by
      refine hfollow n ?_
      rw [has_firstBytesSeq_singleton, firstBytes, firstBytesAny, ByteSet.has_union, hn,
        Bool.true_or]
    have hrs (n : Nat) (hn : (firstBytesAny rs).has n = true) : follow.has n = true := by
      refine hfollow n ?_
      rw [has_firstBytesSeq_singleton, firstBytes, firstBytesAny, ByteSet.has_union, hn,
        Bool.or_true]
    rcases hsettles with rfl | hsettles
    · -- nothing follows, so nothing is started with
      refine (lengths_eq_zero (.branch hfirst hlater hne hes (.inl rfl)) fun n => ?_).2
      rw [Bool.eq_false_iff]
      intro hn
      have hno := hfollow n hn
      rw [ByteSet.has_empty] at hno
      cases hno
    · rw [minLengthSum_singleton, minLength] at hmin
      obtain ⟨q, hq, hnull⟩ := exists_nullable_of_minLengthLeast hmin
      rcases List.mem_cons.1 hq with rfl | hq
      · obtain ⟨p, hp⟩ := List.exists_mem_of_ne_nil rs hne
        exact absurd hnull (not_nullable_of_settles (hsettles p hp))
      · -- the branch starts with nothing, so it takes nothing
        have hzero := hfirst.lengths_eq_zero fun n => by
          rw [has_firstBytesSeq_singleton]
          exact not_follow_of_settles (hsettles q hq) hnull hr n
        rw [minLengthSum_singleton] at hzero
        exact absurd hzero.1 (not_nullable_of_settles (hsettles q hq))

end Lowers

end GrammarKit.Regex
