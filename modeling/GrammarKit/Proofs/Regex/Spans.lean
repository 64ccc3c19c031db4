import GrammarKit.Proofs.Peg.Passes
import GrammarKit.Proofs.Regex.FirstBytes
import GrammarKit.Proofs.Text.Utf8

/-!
# How lowered expressions match

The plan of what is lowered starts with one of the first bytes, and none of its loops can go on with
a byte that may come next.

* `repeated_lowerTimes`: the plan of a repetition.
* `Spans`: how a plan can match, in terms of the expressions that it was made of.
* **`Lowers.spans`**: what is lowered matches like that.
* **`Lowers.isSteady`**: all loops of what is lowered get on.
-/

namespace GrammarKit.Regex

open Peg

/-! ## Repetitions -/

/-- A repetition is a loop only if it may go on forever. -/
theorem eq_none_of_isLoop_lowerTimes {least : Nat} {most : Option Nat}
    (h : (lowerTimes least most).isLoop = true) : most = none := by
  unfold lowerTimes at h
  split at h
  · rfl
  · rfl
  · cases h
  · rfl
  · split_ifs at h <;> cases h

/-- What a plan may do beyond the times that have to be. -/
def further (p : Plan) (least : Nat) : (most : Option Nat) → List Plan
  | some most => List.replicate (most - least) (.optional p)
  | none => [.star p]

/-- The plan of a repetition: the times that have to be, then those that may be. -/
theorem repeated_lowerTimes (p : Plan) {least : Nat} {most : Option Nat}
    (h : ∀ m, most = some m → least ≤ m) :
    p.repeated (lowerTimes least most) = .row (List.replicate least p ++ further p least most) := by
  unfold lowerTimes
  split
  · rfl
  · rfl
  · rfl
  · rfl
  · rename_i m _
    have hle : least ≤ m := h m rfl
    split
    · rename_i heq
      subst heq
      simp [Plan.repeated, further]
    · split
      · rename_i hzero
        subst hzero
        rfl
      · rw [Plan.repeated, Nat.min_eq_left hle]
        rfl

theorem eq_of_mem_further {p q : Plan} {least : Nat} {most : Option Nat}
    (h : q ∈ further p least most) :
    q = .optional p ∧ most ≠ some least ∨ q = .star p ∧ most = none := by
  cases most with
  | some m =>
    obtain ⟨hne, rfl⟩ := List.mem_replicate.1 h
    refine .inl ⟨rfl, fun hm => hne ?_⟩
    rw [Option.some.inj hm, Nat.sub_self]
  | none => exact .inr ⟨List.mem_singleton.1 h, rfl⟩

/-! ## How a plan matches -/

/-- **How the plan of expressions matches**, where bytes of `follow` may come next. -/
structure Spans (follow : ByteSet) (rs : List Regex) (p : Plan) : Prop where
  getsOn : p.getsOn = !p.skips
  minLength : ∃ k, minLengthSum rs = some k ∧ (p.skips = true ↔ k = 0)
  starts : ∀ c : Char, c.toNat < 0x80 → p.starts c → (firstBytesSeq rs).has c.toNat = true
  goesOn : ∀ c : Char, c.toNat < 0x80 → p.goesOn c → follow.has c.toNat = false
  isApart : p.IsApart

namespace Spans

variable {follow : ByteSet} {r : Regex} {rs : List Regex} {p q : Plan}

theorem skips_iff (h : Spans follow rs p) : p.skips = true ↔ minLengthSum rs = some 0 := by
  obtain ⟨k, hk, hskips⟩ := h.minLength
  rw [hskips, hk, Option.some_inj]

/-- What the passes keep is kept here. -/
theorem tracks (h : Spans follow rs p) (ht : p.Tracks q) (hon : q.getsOn = p.getsOn) :
    Spans follow rs q where
  getsOn := by rw [hon, h.getsOn, ht.skips]
  minLength := by
    rw [ht.skips]
    exact h.minLength
  starts c hc hs := h.starts c hc (ht.starts c hs)
  goesOn c hc hg := h.goesOn c hc (ht.goesOn c hg)
  isApart := ht.isApart h.isApart

/-- One plan behind another. -/
theorem seq (h : Spans (followBeforeAll rs follow) [r] p) (hs : Spans follow rs q) :
    Spans follow (r :: rs) (.seq p q) where
  getsOn := by
    rw [Plan.getsOn, Plan.skips, h.getsOn, hs.getsOn, Bool.not_and]
  minLength := by
    obtain ⟨k, hk, hskips⟩ := h.minLength
    obtain ⟨l, hl, hskips'⟩ := hs.minLength
    rw [minLengthSum_singleton] at hk
    refine ⟨k + l, by rw [minLengthSum, hk, hl]; rfl, ?_⟩
    rw [Plan.skips, Bool.and_eq_true, hskips, hskips']
    omega
  starts c hc hstarts := by
    rw [has_firstBytesSeq_cons, ← has_firstBytesSeq_singleton, ← minLengthSum_singleton,
      ← h.skips_iff]
    exact hstarts.imp (h.starts c hc) (And.imp_right (hs.starts c hc))
  goesOn c hc hgoes := by
    rcases hgoes with hgoes | ⟨hskips, hgoes⟩
    · exact hs.goesOn c hc hgoes
    · have hno := h.goesOn c hc hgoes
      rw [Bool.eq_false_iff] at hno ⊢
      exact fun hf => hno ((has_followBeforeAll rs follow _).2 (.inr ⟨hs.skips_iff.1 hskips, hf⟩))
  isApart := by
    refine ⟨h.isApart, hs.isApart, fun c hc hgoes hstarts => ?_⟩
    have hno := h.goesOn c hc hgoes
    rw [(has_followBeforeAll rs follow _).2 (.inl (hs.starts c hc hstarts))] at hno
    cases hno

section Repeated

variable {body : Regex} (h : Spans ((firstBytes body).union follow) [body] p) {least : Nat}
  {most : Option Nat}

include h

theorem not_starts_of_goesOn {c : Char} (hc : c.toNat < 0x80) (hgoes : p.goesOn c) :
    ¬ p.starts c := by
  intro hstarts
  have hfirst := h.starts c hc hstarts
  have hno := h.goesOn c hc hgoes
  rw [has_firstBytesSeq_singleton] at hfirst
  rw [ByteSet.has_union, hfirst] at hno
  cases hno

theorem not_follow_of_goesOn {c : Char} (hc : c.toNat < 0x80) (hgoes : p.goesOn c) :
    follow.has c.toNat = false := by
  have hno := h.goesOn c hc hgoes
  rw [ByteSet.has_union, Bool.or_eq_false_iff] at hno
  exact hno.2

theorem isApart_further :
    (Plan.row (List.replicate least p ++ further p least most)).IsApart := by
  have hapart := h.isApart
  refine Plan.isApart_row (List.forall_mem_append.2 ⟨fun q hq => ?_, fun q hq => ?_⟩) ?_
  · exact List.eq_of_mem_replicate hq ▸ hapart
  · obtain ⟨rfl, -⟩ | ⟨rfl, -⟩ := eq_of_mem_further hq
    · exact hapart
    · exact hapart
  · have hclash (c : Char) (hc : c.toNat < 0x80) := h.not_starts_of_goesOn hc
    refine List.pairwise_append.2 ⟨List.pairwise_replicate.2 (.inr hclash), ?_, ?_⟩
    · cases most with
      | some m => exact List.pairwise_replicate.2 (.inr hclash)
      | none => exact List.pairwise_singleton _ _
    · intro q hq t ht c hc
      rw [List.eq_of_mem_replicate hq]
      obtain ⟨rfl, -⟩ | ⟨rfl, -⟩ := eq_of_mem_further ht
      · exact hclash c hc
      · exact hclash c hc

/-- **A repetition**, if its body cannot start with what follows. -/
theorem repeated (hle : ∀ m, most = some m → least ≤ m)
    (happart : most ≠ some least → (firstBytes body).intersects follow = false) :
    Spans follow [.repetition body least most true] (p.repeated (lowerTimes least most)) := by
  rw [repeated_lowerTimes p hle]
  have hmem {q : Plan} (hq : q ∈ List.replicate least p ++ further p least most) :
      q = p ∨ q = .optional p ∧ most ≠ some least ∨ q = .star p ∧ most = none :=
    (List.mem_append.1 hq).imp List.eq_of_mem_replicate eq_of_mem_further
  have hfurther : (further p least most).all Plan.skips = true := by
    rw [List.all_eq_true]
    intro q hq
    obtain ⟨rfl, -⟩ | ⟨rfl, -⟩ := eq_of_mem_further hq <;> rfl
  constructor
  case getsOn =>
    refine Plan.getsOn_row_eq_not_skips fun q hq => ?_
    obtain rfl | ⟨rfl, -⟩ | ⟨rfl, -⟩ := hmem hq
    · exact h.getsOn
    · rfl
    · rfl
  case minLength =>
    obtain ⟨k, hk, hskips⟩ := h.minLength
    rw [minLengthSum_singleton] at hk
    refine ⟨k * least, by rw [minLengthSum_singleton, Regex.minLength, hk, Option.map_some], ?_⟩
    rw [Plan.skips_row, List.all_append, hfurther, Bool.and_true, List.all_replicate,
      Nat.mul_eq_zero]
    split
    · rename_i hzero
      simp [hzero]
    · rename_i hpos
      rw [hskips, or_iff_left hpos]
  case starts =>
    intro c hc hstarts
    obtain ⟨q, hq, hqstarts⟩ := Plan.exists_starts_of_row hstarts
    have hfirst : p.starts c → (firstBytesSeq [.repetition body least most true]).has c.toNat := by
      intro hs
      have hbody := h.starts c hc hs
      rwa [has_firstBytesSeq_singleton] at hbody ⊢
    obtain rfl | ⟨rfl, -⟩ | ⟨rfl, -⟩ := hmem hq
    · exact hfirst hqstarts
    · exact hfirst hqstarts
    · exact hfirst hqstarts
  case goesOn =>
    intro c hc hrow
    obtain ⟨q, hq, hgoes⟩ := Plan.exists_goesOn_of_row hrow
    obtain rfl | ⟨rfl, -⟩ | ⟨rfl, rfl⟩ := hmem hq
    · exact h.not_follow_of_goesOn hc hgoes
    · exact h.not_follow_of_goesOn hc hgoes
    · rcases hgoes with hstarts | hgoes
      · have hfirst := h.starts c hc hstarts
        rw [has_firstBytesSeq_singleton] at hfirst
        exact ByteSet.not_has_of_intersects (happart fun hmost => by cases hmost) hfirst
      · exact h.not_follow_of_goesOn hc hgoes
  case isApart => exact h.isApart_further

end Repeated

end Spans

/-! ## Choices and classes -/

/-- What the first of several expressions takes that does not refuse. -/
def firstTaking (es : List Expr) : Taking := fun s =>
  (es.map fun e => (e.plan fun _ => none).takes s).foldr .orElse .refused

theorem firstTaking_cons (e : Expr) (es : List Expr) :
    firstTaking (e :: es) = Taking.choice (e.plan fun _ => none).takes (firstTaking es) := rfl

theorem firstTaking_append (es fs : List Expr) :
    firstTaking (es ++ fs) = Taking.choice (firstTaking es) (firstTaking fs) := by
  funext s
  induction es with
  | nil => rfl
  | cons e es ih =>
    rw [List.cons_append, firstTaking_cons, firstTaking_cons, Taking.choice, ih]
    exact (Reading.orElse_assoc _ _ _).symm

theorem firstTaking_singleton (e : Expr) :
    firstTaking [e] = (e.plan fun _ => none).takes := by
  funext s
  show ((e.plan fun _ => none).takes s).orElse .refused = _
  cases (e.plan fun _ => none).takes s <;> rfl

theorem firstTaking_branches (e : Expr) :
    firstTaking e.branches = (e.plan fun _ => none).takes := by
  induction e with
  | choice left right ihl ihr =>
    rw [Expr.branches, firstTaking_append, ihl, ihr]
    rfl
  | _ => exact firstTaking_singleton _

/-- **A choice takes what the first branch takes that does not refuse.** -/
theorem takes_firstOf {es : List Expr} (hne : es ≠ []) :
    ((Expr.firstOf es).plan fun _ => none).takes = firstTaking es := by
  have hflat (es : List Expr) : firstTaking (es.flatMap Expr.branches) = firstTaking es := by
    induction es with
    | nil => rfl
    | cons e es ih =>
      rw [List.flatMap_cons, firstTaking_append, firstTaking_branches, ih]
      rfl
  have hfold (es : List Expr) (e : Expr) :
      ((es.foldl .choice e).plan fun _ => none).takes = firstTaking (e :: es) := by
    induction es generalizing e with
    | nil => exact (firstTaking_singleton e).symm
    | cons f es ih =>
      rw [List.foldl_cons, ih, firstTaking_cons, firstTaking_cons, firstTaking_cons]
      funext s
      exact Reading.orElse_assoc _ _ _
  rw [← hflat, Expr.firstOf]
  split
  · rename_i hnil
    obtain ⟨e, es, rfl⟩ := List.exists_cons_of_ne_nil hne
    exact absurd (List.append_eq_nil_iff.1 hnil).1 (Expr.branches_ne_nil e)
  · rename_i e es hcons
    rw [hcons]
    exact hfold es e

/-! ### How a choice matches -/

section FirstOf

variable {es : List Expr} (hne : es ≠ [])

include hne

theorem skips_firstOf : ((Expr.firstOf es).plan fun _ => none).skips =
    es.any fun e => (e.plan fun _ => none).skips := by
  rw [← Bool.not_inj_iff, Bool.eq_iff_iff, List.not_any_eq_all_not, List.all_eq_true]
  simp only [Bool.not_eq_true']
  refine Expr.firstOf_iff (P := fun e => (e.plan fun _ => none).skips = false) (fun l r => ?_)
    fun hnil => absurd hnil hne
  exact Bool.or_eq_false_iff

theorem getsOn_plan_firstOf : ((Expr.firstOf es).plan fun _ => none).getsOn =
    es.all fun e => (e.plan fun _ => none).getsOn := by
  rw [Bool.eq_iff_iff, List.all_eq_true]
  exact Expr.firstOf_iff (P := fun e => (e.plan fun _ => none).getsOn = true)
    (fun l r => Bool.and_eq_true_iff) fun hnil => absurd hnil hne

theorem starts_firstOf {c : Char} : ((Expr.firstOf es).plan fun _ => none).starts c ↔
    ∃ e ∈ es, (e.plan fun _ => none).starts c := by
  rw [← not_iff_not, not_exists]
  simp only [not_and]
  exact Expr.firstOf_iff (P := fun e => ¬ (e.plan fun _ => none).starts c) (fun l r => not_or)
    fun hnil => absurd hnil hne

theorem goesOn_firstOf {c : Char} : ((Expr.firstOf es).plan fun _ => none).goesOn c ↔
    ∃ e ∈ es, (e.plan fun _ => none).goesOn c := by
  rw [← not_iff_not, not_exists]
  simp only [not_and]
  exact Expr.firstOf_iff (P := fun e => ¬ (e.plan fun _ => none).goesOn c) (fun l r => not_or)
    fun hnil => absurd hnil hne

theorem isApart_firstOf : ((Expr.firstOf es).plan fun _ => none).IsApart ↔
    ∀ e ∈ es, (e.plan fun _ => none).IsApart :=
  Expr.firstOf_iff (P := fun e => (e.plan fun _ => none).IsApart) (fun _ _ => Iff.rfl)
    fun hnil => absurd hnil hne

end FirstOf

namespace Spans

variable {follow : ByteSet} {r : Regex} {rs : List Regex} {e : Expr} {es : List Expr}

/-- The last branch of a choice. -/
theorem lastBranch (h : Spans follow [r] (e.plan fun _ => none)) :
    Spans follow [.alternation [r]] ((Expr.firstOf [e]).plan fun _ => none) := by
  have hne := List.cons_ne_nil e []
  constructor
  case getsOn => simpa [getsOn_plan_firstOf hne, skips_firstOf hne] using h.getsOn
  case minLength =>
    obtain ⟨k, hk, hskips⟩ := h.minLength
    rw [minLengthSum_singleton] at hk
    refine ⟨k, (minLengthSum_singleton _).trans hk, ?_⟩
    rw [skips_firstOf hne, List.any_cons, List.any_nil, Bool.or_false, hskips]
  case starts =>
    intro c hc hs
    have hs : (e.plan fun _ => none).starts c := by simpa using (starts_firstOf hne).1 hs
    have hfirst := h.starts c hc hs
    rw [has_firstBytesSeq_singleton] at hfirst ⊢
    rw [firstBytes, firstBytesAny, ByteSet.has_union, hfirst, Bool.true_or]
  case goesOn =>
    intro c hc hg
    exact h.goesOn c hc (by simpa using (goesOn_firstOf hne).1 hg)
  case isApart => exact (isApart_firstOf hne).2 (List.forall_mem_singleton.2 h.isApart)

/-- A branch in front of others. -/
theorem branch (h : Spans follow [r] (e.plan fun _ => none))
    (hs : Spans follow [.alternation rs] ((Expr.firstOf es).plan fun _ => none)) (hrs : rs ≠ [])
    (hes : es ≠ []) :
    Spans follow [.alternation (r :: rs)] ((Expr.firstOf (e :: es)).plan fun _ => none) := by
  have hne := List.cons_ne_nil e es
  have hskips : ((Expr.firstOf (e :: es)).plan fun _ => none).skips =
      ((e.plan fun _ => none).skips || ((Expr.firstOf es).plan fun _ => none).skips) := by
    rw [skips_firstOf hne, skips_firstOf hes, List.any_cons]
  constructor
  case getsOn =>
    rw [hskips, Bool.not_or, ← h.getsOn, ← hs.getsOn, getsOn_plan_firstOf hne,
      getsOn_plan_firstOf hes, List.all_cons]
  case minLength =>
    obtain ⟨k, hk, hkskips⟩ := h.minLength
    obtain ⟨l, hl, hlskips⟩ := hs.minLength
    rw [minLengthSum_singleton] at hk hl
    rw [Regex.minLength] at hl
    refine ⟨min k l, ?_, ?_⟩
    · rw [minLengthSum_singleton, Regex.minLength, minLengthLeast_cons r hrs, hk, hl]
      rfl
    · rw [hskips, Bool.or_eq_true, hkskips, hlskips]
      omega
  case starts =>
    intro c hc hstarts
    rw [starts_firstOf hne, List.exists_mem_cons_iff, ← starts_firstOf hes] at hstarts
    rw [has_firstBytesSeq_singleton, firstBytes, firstBytesAny, ByteSet.has_union, Bool.or_eq_true]
    refine hstarts.imp (fun hstarts => ?_) fun hstarts => ?_
    · exact (has_firstBytesSeq_singleton r _).symm.trans (h.starts c hc hstarts)
    · exact (has_firstBytesSeq_singleton _ _).symm.trans (hs.starts c hc hstarts)
  case goesOn =>
    intro c hc hg
    rw [goesOn_firstOf hne, List.exists_mem_cons_iff, ← goesOn_firstOf hes] at hg
    exact hg.elim (h.goesOn c hc) (hs.goesOn c hc)
  case isApart =>
    rw [isApart_firstOf hne, List.forall_mem_cons, ← isApart_firstOf hes]
    exact ⟨h.isApart, hs.isApart⟩

end Spans

/-! ### Classes -/

/-- A text of one character is a class of one character. -/
theorem text_singleton (a : Char) : Taking.text [a] = Taking.char (a == ·) := by
  funext s
  cases s with
  | nil => rfl
  | cons c s =>
    rw [Taking.text, Taking.char, List.isPrefixOf_cons_cons, List.isPrefixOf_nil_left, Bool.and_true]
    rfl

/-- The ASCII part of an interval is a character or a range. -/
theorem asciiPart_cases {r : Nat × Nat} {e : Expr} (h : asciiPart r = some e) :
    (∃ a : Char, e = .text a.toString) ∨ ∃ a b, e = .range a b := by
  rw [asciiPart] at h
  split at h
  · cases h
  · simp only at h
    split at h <;> cases h
    · exact .inl ⟨_, rfl⟩
    · exact .inr ⟨_, _, rfl⟩

/-- The ASCII part of an interval: what it takes, and how it starts. -/
theorem asciiPart_eq_some {r : Nat × Nat} {e : Expr} (h : asciiPart r = some e)
    (hr : r.1 ≤ r.2) :
    (e.plan fun _ => none).takes =
        Taking.char (fun c => r.1 ≤ c.toNat && c.toNat ≤ min r.2 0x7F) ∧
      ∀ c, (e.plan fun _ => none).starts c → r.1 ≤ c.toNat ∧ c.toNat ≤ r.2 := by
  rw [asciiPart] at h
  split at h
  · cases h
  · rename_i hle
    have hfirst : (Char.ofNat r.1).toNat = r.1 := Text.toNat_ofNat (by omega)
    have hlast : (Char.ofNat (min r.2 0x7F)).toNat = min r.2 0x7F := Text.toNat_ofNat (by omega)
    simp only at h
    split at h
    · rename_i heq
      cases h
      have htext : (Char.ofNat r.1).toString.toList = [Char.ofNat r.1] := by simp [Char.toString]
      refine ⟨?_, fun c hc => ?_⟩
      · rw [Expr.plan, Plan.takes, htext, text_singleton]
        congr 1
        funext c
        rw [Bool.eq_iff_iff, beq_iff_eq, ← Char.toNat_inj, hfirst]
        simp only [Bool.and_eq_true, decide_eq_true_eq]
        omega
      · rw [Expr.plan, Plan.starts, htext] at hc
        have hchar : (Char.ofNat r.1).toNat = c.toNat := congrArg Char.toNat (Option.some.inj hc)
        omega
    · cases h
      have hrange (c : Char) : (Char.ofNat r.1 ≤ c && c ≤ Char.ofNat (min r.2 0x7F)) =
          (r.1 ≤ c.toNat && c.toNat ≤ min r.2 0x7F) := by
        rw [Bool.eq_iff_iff]
        simp only [Bool.and_eq_true, decide_eq_true_eq]
        show (Char.ofNat r.1).toNat ≤ c.toNat ∧ c.toNat ≤ (Char.ofNat (min r.2 0x7F)).toNat ↔ _
        rw [hfirst, hlast]
      refine ⟨?_, fun c hc => ?_⟩
      · rw [Expr.plan, Plan.takes]
        simp only [hrange]
      · have hc : (Char.ofNat r.1 ≤ c && c ≤ Char.ofNat (min r.2 0x7F)) = true := hc
        simp only [hrange, Bool.and_eq_true, decide_eq_true_eq] at hc
        omega

/-- What is beyond ASCII is refused in ASCII texts. -/
theorem takes_beyondAscii {s : List Char} (hs : Text.IsAscii s) :
    (beyondAscii.plan fun _ => none).takes s = .refused := by
  show (Taking.notAhead (Taking.char (·.toNat < 0x80)) s).bind (Taking.char fun _ => true) = _
  cases s with
  | nil => rfl
  | cons c s =>
    have hc : decide (c.toNat < 0x80) = true := by simpa using hs.head
    rw [Taking.notAhead, Taking.char, if_pos hc]
    rfl

/-- The ASCII parts of a class take its ASCII characters. -/
theorem firstTaking_asciiParts {is : Intervals} (his : is.IsOrdered) {s : List Char}
    (hs : Text.IsAscii s) :
    firstTaking (is.filterMap asciiPart) s = Taking.char (fun c => is.has c.toNat) s := by
  induction is with
  | nil => cases s <;> rfl
  | cons r is ih =>
    obtain ⟨hr, his⟩ := List.forall_mem_cons.1 his
    have ih := ih his
    cases hpart : asciiPart r with
    | none =>
      have hbeyond : 0x7F < r.1 := by
        by_contra hle
        rw [asciiPart, if_neg hle] at hpart
        simp only at hpart
        split at hpart <;> cases hpart
      rw [List.filterMap_cons_none hpart, ih]
      cases s with
      | nil => rfl
      | cons c s =>
        have hc := hs.head
        have hno : (decide (r.1 ≤ c.toNat) && decide (c.toNat ≤ r.2)) = false := by
          simp only [Bool.and_eq_false_iff, decide_eq_false_iff_not]
          omega
        rw [Taking.char, Taking.char, Intervals.has_cons, hno, Bool.false_or]
    | some e =>
      rw [List.filterMap_cons_some hpart, firstTaking_cons, Taking.choice, ih,
        (asciiPart_eq_some hpart hr).1]
      cases s with
      | nil => rfl
      | cons c s =>
        have hc := hs.head
        have hlast : decide (c.toNat ≤ min r.2 0x7F) = decide (c.toNat ≤ r.2) :=
          decide_eq_decide.2 (by omega)
        rw [Taking.char, Taking.char, Taking.char, hlast, Intervals.has_cons]
        by_cases hin : (decide (r.1 ≤ c.toNat) && decide (c.toNat ≤ r.2)) = true
        · rw [if_pos hin, hin]
          rfl
        · rw [if_neg hin, Bool.eq_false_iff.2 hin, Bool.false_or]
          rfl

variable {is : Intervals} {e : Expr}

/-- **A class takes one of its characters.** -/
theorem agrees_lowerClass (his : is.IsOrdered) (h : lowerClass is = .ok e) :
    (Taking.char fun c => is.has c.toNat).Agrees (e.plan fun _ => none).takes := by
  intro s hs
  rw [lowerClass] at h
  split at h
  · cases h
  · rename_i hne
    cases h
    rw [takes_firstOf hne, firstTaking_append, Taking.choice, firstTaking_asciiParts his hs]
    have hbeyond : firstTaking (if is.any fun r => 0x7F < r.2 then [beyondAscii] else []) s =
        .refused := by
      split
      · rw [firstTaking_singleton, takes_beyondAscii hs]
      · rfl
    rw [hbeyond]
    cases Taking.char (fun c => is.has c.toNat) s <;> rfl

/-- Parts of a class, whatever part of it they are. -/
theorem forall_lowerClass {P : Expr → Prop} (hchoice : ∀ l r, P (.choice l r) ↔ P l ∧ P r)
    (hascii : ∀ r ∈ is, ∀ e, asciiPart r = some e → P e) (hbeyond : P beyondAscii)
    (h : lowerClass is = .ok e) : P e := by
  rw [lowerClass] at h
  split at h
  · cases h
  · rename_i hne
    cases h
    refine (Expr.firstOf_iff hchoice fun hnil => absurd hnil hne).2 fun e he => ?_
    rcases List.mem_append.1 he with he | he
    · obtain ⟨r, hr, he⟩ := List.mem_filterMap.1 he
      exact hascii r hr e he
    · split at he
      · exact List.mem_singleton.1 he ▸ hbeyond
      · cases he

theorem spans_charClass {follow : ByteSet} {c : CharClass} (hc : c.set.IsOrdered)
    (h : lowerClass c.set = .ok e) : Spans follow [.charClass c] (e.plan fun _ => none) := by
  -- a class has no loops, and skips nothing
  obtain ⟨hskips, hgoes, hapart⟩ : (e.plan fun _ => none).skips = false ∧
      (∀ d, ¬ (e.plan fun _ => none).goesOn d) ∧ (e.plan fun _ => none).IsApart := by
    refine forall_lowerClass (P := fun e => (e.plan fun _ => none).skips = false ∧
      (∀ d, ¬ (e.plan fun _ => none).goesOn d) ∧ (e.plan fun _ => none).IsApart) ?_ ?_ ?_ h
    · intro l r
      simp only [Expr.plan, Plan.skips, Plan.goesOn, Plan.IsApart, Bool.or_eq_false_iff, not_or,
        forall_and]
      tauto
    · intro r _ e he
      obtain ⟨a, rfl⟩ | ⟨a, b, rfl⟩ := asciiPart_cases he
      · exact ⟨by simp [Expr.plan, Plan.skips, Char.toString], fun _ => id, trivial⟩
      · exact ⟨rfl, fun _ => id, trivial⟩
    · refine ⟨rfl, fun d hd => ?_, trivial, trivial, fun d _ hd => hd.elim⟩
      rcases hd with hd | ⟨-, hd⟩
      · exact hd
      · exact hd
  have hstarts := forall_lowerClass
    (P := fun e => ∀ d, (e.plan fun _ => none).starts d → c.set.has d.toNat = true)
    (fun l r => by simp only [Expr.plan, Plan.starts, or_imp, forall_and])
    (fun r hr e he d hd => by
      obtain ⟨hle, hge⟩ := (asciiPart_eq_some he (hc r hr)).2 d hd
      exact List.any_eq_true.2 ⟨r, hr, by simp [hle, hge]⟩)
    (fun d hd => by rcases hd with hd | ⟨hd, -⟩ <;> cases hd) h
  constructor
  case getsOn =>
    rw [(lowerClass_isLexical h).getsOn_plan rfl, (lowerClass_getsOn h).1, hskips]
    rfl
  case minLength =>
    obtain ⟨k, hk, hk0⟩ := c.exists_minLength (set_ne_nil_of_lowerClass h)
    refine ⟨k, by rw [minLengthSum_singleton, minLength, hk], ?_⟩
    simp [hskips, hk0]
  case starts =>
    intro d hd hs
    rw [has_firstBytesSeq_singleton, firstBytes, ByteSet.has_ofIntervals hd]
    exact hstarts d hs
  case goesOn => exact fun d _ hd => (hgoes d hd).elim
  case isApart => exact hapart

/-! ## Expressions -/

/-- The plan of several expressions, one after the other. -/
def planRow (es : List Expr) : Plan := .row (es.map (Expr.plan fun _ => none))

theorem spans_text {follow : ByteSet} {r : Regex} {s : List Char} {k : Nat}
    (hmin : r.minLength = some k) (hk : s = [] ↔ k = 0)
    (hstarts : ∀ c : Char, c.toNat < 0x80 → s.head? = some c → r.firstBytes.has c.toNat = true) :
    Spans follow [r] (.text (String.ofList s)) where
  getsOn := rfl
  minLength := by
    refine ⟨k, (minLengthSum_singleton r).trans hmin, ?_⟩
    rw [← hk]
    simp [Plan.skips]
  starts c hc h := by
    rw [has_firstBytesSeq_singleton]
    refine hstarts c hc ?_
    simpa [Plan.starts] using h
  goesOn _ _ h := h.elim
  isApart := trivial

/-- The first character of a literal is ASCII only if its first byte is. -/
theorem spans_literal {follow : ByteSet} {bytes : List UInt8} {s : List Char}
    (h : Text.decode? bytes = some s) :
    Spans follow [.literal bytes] (.text (String.ofList s)) := by
  cases bytes with
  | nil =>
    rw [Text.decode?] at h
    cases h
    exact spans_text rfl (iff_of_true rfl rfl) fun c _ h => by cases h
  | cons b bs =>
    obtain ⟨c, tail, v, hchar, -, rfl⟩ := Text.decode?_cons_eq_some h
    refine spans_text rfl (iff_of_false (List.cons_ne_nil _ _) (Nat.succ_ne_zero _)) ?_
    rintro d hd ⟨⟩
    have hb : b.toNat < 0x80 := by
      by_contra hb
      have hc := Text.decodeChar?_wide hb hchar
      omega
    rw [Text.decodeChar?_ascii hb] at hchar
    cases hchar
    rw [Text.toNat_ofNat hb, firstBytes, ByteSet.has_insert _ hb]
    simp

namespace Lowers

variable {follow : ByteSet} {rs : List Regex} {es : List Expr}

theorem isPlain (h : Lowers follow rs es) : (planRow es).IsPlain := by
  refine Plan.IsPlain.row fun p hp => ?_
  obtain ⟨e, he, rfl⟩ := List.mem_map.1 hp
  exact (h.isLexical e he).isPlain_plan rfl

/-- **What is lowered matches as the expressions do.** -/
theorem spans (h : Lowers follow rs es) : Spans follow rs (planRow es) := by
  induction h with
  | nil =>
    exact ⟨rfl, ⟨0, rfl, iff_of_true rfl rfl⟩, fun _ _ h => (by cases h), fun _ _ h => h.elim, trivial⟩
  | @cons _ r rs e es _ _ ih ihs =>
    refine (ih.seq ihs).tracks (.row_cons _ _) ?_
    rw [planRow, List.map_cons, Plan.getsOn_row, List.any_cons, ← Plan.getsOn_row]
    rfl
  | empty => exact spans_text rfl (iff_of_true rfl rfl) fun c _ h => by cases h
  | literal h => exact spans_literal h
  | charClass hc h => exact spans_charClass hc h
  | @repetition _ body least most e hbody horder happart ih =>
    have hlex : e.IsLexical := hbody.isLexical e List.mem_cons_self
    show Spans _ _ ((e.repeated (lowerTimes least most)).plan fun _ => none)
    rw [hlex.plan_repeated rfl]
    exact ih.repeated (fun m hm => (horder.most_le m hm).1) happart
  | @capture _ index body e _ ih =>
    obtain ⟨hon, ⟨k, hk, hskips⟩, hstarts, hgoes, hapart⟩ := ih
    rw [minLengthSum_singleton] at hk
    refine ⟨hon, ⟨k, (minLengthSum_singleton _).trans hk, hskips⟩, fun c hc hs => ?_, hgoes, hapart⟩
    have hfirst := hstarts c hc hs
    rwa [has_firstBytesSeq_singleton] at hfirst ⊢
  | @concat _ parts es hparts ih =>
    have hlex := Expr.isLexical_sequence hparts.isLexical
    have htracks : (planRow es).Tracks ((Expr.sequence es).plan fun _ => none) :=
      Expr.tracks_sequence es
    have hon : ((Expr.sequence es).plan fun _ => none).getsOn = (planRow es).getsOn := by
      rw [hlex.getsOn_plan rfl, Bool.eq_iff_iff, Expr.getsOn_sequence, planRow, Plan.getsOn_row,
        List.any_map, List.any_eq_true]
      refine exists_congr fun e => and_congr_right fun he => ?_
      rw [Function.comp_apply, (hparts.isLexical e he).getsOn_plan rfl]
    obtain ⟨hon, ⟨k, hk, hskips⟩, hstarts, hgoes, hapart⟩ := ih.tracks htracks hon
    refine ⟨hon, ⟨k, (minLengthSum_singleton _).trans hk, hskips⟩, fun c hc hs => ?_, hgoes, hapart⟩
    rw [has_firstBytesSeq_singleton]
    exact hstarts c hc hs
  | lastBranch _ ih => exact ih.lastBranch
  | branch _ _ hrs hes _ ih ihs => exact ih.branch ihs hrs hes

/-- A body that could match nothing where it may be repeated would match nothing else. -/
theorem getsOn_body {body : Regex} (h : Lowers ((firstBytes body).union follow) [body] es)
    (hmax : body.maxLength ≠ some 0) : (planRow es).getsOn = true := by
  rw [h.spans.getsOn, Bool.not_eq_true', Bool.eq_false_iff]
  intro hskips
  have hzero := h.maxLength_eq_zero (h.spans.skips_iff.1 hskips) fun n hn => by
    rw [has_firstBytesSeq_singleton] at hn
    rw [ByteSet.has_union, hn, Bool.true_or]
  exact hmax ((maxLengthSum_singleton body).symm.trans hzero)

/-- **All loops of what is lowered get on.** -/
theorem isSteady (h : Lowers follow rs es) : ∀ e ∈ es, e.IsSteady := by
  induction h with
  | nil => exact List.forall_mem_nil _
  | cons _ _ ih ihs => exact List.forall_mem_cons.2 ⟨ih _ List.mem_cons_self, ihs⟩
  | empty | literal => exact List.forall_mem_singleton.2 trivial
  | charClass _ hc =>
    refine List.forall_mem_singleton.2 (forall_lowerClass (fun _ _ => Iff.rfl) ?_
      ⟨trivial, trivial⟩ hc)
    intro r _ e he
    obtain ⟨a, rfl⟩ | ⟨a, b, rfl⟩ := asciiPart_cases he
    · exact trivial
    · exact trivial
  | @repetition follow body least most e hbody horder happart ih =>
    have he : e.IsSteady := ih e List.mem_cons_self
    have hlex : e.IsLexical := hbody.isLexical e List.mem_cons_self
    refine List.forall_mem_singleton.2 ⟨he, fun hloop => ?_⟩
    have hon : (e.plan fun _ => none).getsOn = e.getsOn := hlex.getsOn_plan rfl
    rw [← hon]
    exact hbody.getsOn_body (horder.body_pos (eq_none_of_isLoop_lowerTimes hloop))
  | capture _ ih => exact ih
  | @concat _ _ es _ ih =>
    refine List.forall_mem_singleton.2 ?_
    exact (Expr.sequence_iff (P := Expr.IsSteady) (fun _ _ => Iff.rfl) trivial es).2 ih
  | lastBranch _ ih =>
    refine List.forall_mem_singleton.2 ?_
    exact (Expr.firstOf_iff (P := Expr.IsSteady) (fun _ _ => Iff.rfl) fun _ => trivial).2 ih
  | branch _ _ _ hes _ ih ihs =>
    exact List.forall_mem_singleton.2 ((Expr.firstOf_cons_iff (fun _ _ => Iff.rfl) hes).2
      ⟨ih _ List.mem_cons_self, ihs _ List.mem_cons_self⟩)

end Lowers

end GrammarKit.Regex
