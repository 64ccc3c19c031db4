import GrammarKit.Proofs.Regex.Spans
import GrammarKit.Proofs.Regex.Starts

/-!
# Lowering is exact

A search tries all choices in order, and comes back to one if what follows fails. A lowered expression
never comes back. On ASCII texts it takes the same nevertheless: where a repetition could have gone
on, what follows cannot start, so coming back would not help; nor would it help where a branch has
settled a choice.

* `not_has_of_settles`: what later branches leave, once a branch has matched.
* `Search.Fits`: what may come next, as seen from a search.
* `Mirrors`: a search that does what a function on texts does, with a lemma per operator.
* **`Lowers.mirrors`**: the search for an expression does what it is lowered to.
-/

namespace GrammarKit.Regex

open Peg Text

/-! ## Choices that are settled -/

section Settles

variable {follow : ByteSet} {b : UInt8} {s t u : List UInt8}

theorem not_has_of_literalSettles {as bs : List UInt8} (h : literalSettles follow as bs = true)
    (hs : as ++ t = bs ++ b :: u) : follow.has b.toNat = false := by
  induction as generalizing bs with
  | nil => cases bs <;> cases h
  | cons a as ih =>
    cases bs with
    | nil =>
      obtain ⟨rfl, -⟩ := List.cons.inj hs
      have h : (!follow.has a.toNat) = true := h
      simpa using h
    | cons c bs =>
      obtain ⟨rfl, htail⟩ := List.cons.inj hs
      exact ih (by simpa [literalSettles] using h) htail

/-- **Where a branch settles a choice**, a match of a later branch leaves nothing that could
follow. -/
theorem not_has_of_settles (holds : Anchor → List UInt8 → Bool) {r q : Regex} (hr : r.IsNormal)
    (hrc : r.IsConcrete) (hq : q.IsNormal) (hqc : q.IsConcrete)
    (h : settles follow r q = true) (ht : r.Matches holds s t) (hu : q.Matches holds s (b :: u)) :
    follow.has b.toNat = false := by
  obtain ⟨as, bs, rfl, rfl, h⟩ | ⟨hnull, happart⟩ := settles_cases h
  · exact not_has_of_literalSettles h ((show s = as ++ t from ht).symm.trans hu)
  · have hne : t ≠ s := by
      rintro rfl
      exact hnull ((matches_self_iff holds r hr hrc t).1 ht)
    cases s with
    | nil => exact absurd (List.suffix_nil.1 (leavesEnd_matches holds r ht)) hne
    | cons c s =>
      have hno := ByteSet.not_has_of_intersects happart (has_firstBytes holds r hr hrc ht hne)
      rw [followBefore, nullable] at hno
      by_cases hback : b :: u = c :: s
      · -- the later branch matches nothing, so what follows starts here
        obtain ⟨rfl, rfl⟩ := List.cons.inj hback
        rw [if_pos (by rw [(matches_self_iff holds q hq hqc _).1 hu]; rfl), ByteSet.has_union,
          Bool.or_eq_false_iff] at hno
        exact hno.2
      · have hstarts := has_firstBytes holds q hq hqc hu hback
        split at hno
        · rw [ByteSet.has_union, hstarts, Bool.true_or] at hno
          cases hno
        · rw [hstarts] at hno
          cases hno

/-- A match of several branches is one of some branch. -/
theorem exists_of_matchesAny (holds : Anchor → List UInt8 → Bool) {rs : List Regex}
    (h : MatchesAny holds rs s t) : ∃ r ∈ rs, r.Matches holds s t := by
  induction rs with
  | nil => exact h.elim
  | cons r rs ih =>
    rcases h with h | h
    · exact ⟨r, List.mem_cons_self, h⟩
    · exact (ih h).imp fun _ hq => ⟨List.mem_cons_of_mem r hq.1, hq.2⟩

end Settles

/-! ## Searches on ASCII texts -/

namespace Search

/-- The search ends well on every ASCII text. -/
def IsTotal (k : Search) : Prop := ∀ s, IsAscii s → k (encode s) ≠ none

/-- The search ends well only on ASCII texts that start with a byte of `follow`. -/
def Needs (follow : ByteSet) (k : Search) : Prop :=
  ∀ s, IsAscii s → k (encode s) ≠ none → ∃ c t, s = c :: t ∧ follow.has c.toNat = true

/-- **Bytes of `follow` may come next**, if it matters what comes next. -/
def Fits (follow : ByteSet) (k : Search) : Prop := k.IsTotal ∨ k.Needs follow

variable {follow follow' : ByteSet} {k m : Search}

theorem Needs.mono (h : k.Needs follow)
    (hsub : ∀ n, follow.has n = true → follow'.has n = true) : k.Needs follow' := by
  intro s hs hne
  obtain ⟨c, t, hst, hc⟩ := h s hs hne
  exact ⟨c, t, hst, hsub _ hc⟩

theorem Fits.mono (h : k.Fits follow)
    (hsub : ∀ n, follow.has n = true → follow'.has n = true) : k.Fits follow' :=
  h.imp_right fun h => h.mono hsub

theorem Needs.moreOr (hm : m.Needs follow) (hk : k.Needs follow) (greedy : Bool) :
    (Search.moreOr greedy m k).Needs follow := by
  intro s hs hne
  rw [Ne, moreOr_eq_none, not_and_or] at hne
  exact hne.elim (hm s hs) (hk s hs)

theorem Fits.moreOr (hm : m.Fits follow) (hk : k.Fits follow) (greedy : Bool) :
    (Search.moreOr greedy m k).Fits follow := by
  rcases hk with hk | hk
  · exact .inl fun s hs => moreOr_ne_none (.inr (hk s hs))
  · rcases hm with hm | hm
    · exact .inl fun s hs => moreOr_ne_none (.inl (hm s hs))
    · exact .inr (hm.moreOr hk greedy)

theorem Needs.ite (hm : m.Needs follow) (hk : k.Needs follow) (p : List UInt8 → Prop)
    [DecidablePred p] : Needs follow fun s => if p s then m s else k s := by
  intro s hs hne
  simp only at hne
  split at hne
  · exact hm s hs hne
  · exact hk s hs hne

theorem IsTotal.ite (hm : m.IsTotal) (hk : k.IsTotal) (p : List UInt8 → Prop) [DecidablePred p] :
    IsTotal fun s => if p s then m s else k s := by
  intro s hs
  simp only
  split
  · exact hm s hs
  · exact hk s hs

theorem atMost_ne_none {step : Search → Search} {greedy : Bool} {s : List UInt8} (hk : k s ≠ none)
    (n : Nat) : atMost step greedy k n s ≠ none := by
  cases n with
  | zero => exact hk
  | succ n => exact moreOr_ne_none (.inr hk)

theorem anyNumber_ne_none {step : Search → Search} {greedy : Bool} {s : List UInt8}
    (hk : k s ≠ none) (n : Nat) : anyNumber step greedy k n s ≠ none := by
  cases n with
  | zero => exact hk
  | succ n => exact moreOr_ne_none (.inr hk)

end Search

/-! ## Searches that do what a function on texts does -/

/-- Goes on with a search where a reading has stopped. -/
def resume (r : Reading (List Char)) (k : Search) : Option (List UInt8) :=
  match r with
  | .read t => k (encode t)
  | .refused | .stuck => none

/-- **The search does what the function does** on ASCII texts, where bytes of `follow` may come
next. -/
def Mirrors (follow : ByteSet) (step : Search → Search) (f : Taking) : Prop :=
  ∀ k : Search, k.Fits follow → ∀ s, IsAscii s → step k (encode s) = resume (f s) k

namespace Mirrors

variable {follow : ByteSet} {step : Search → Search} {k : Search}

/-- One after the other. -/
theorem seq {follow' : ByteSet} {step' : Search → Search} {f g : Taking}
    (hf : Mirrors follow' step f) (hg : Mirrors follow step' g) (hends : f.LeavesEnd)
    (hfits : ∀ k : Search, k.Fits follow → (step' k).Fits follow') :
    Mirrors follow (fun k => step (step' k)) (Taking.seq f g) := by
  intro k hk s hs
  have hstep := hf (step' k) (hfits k hk) s hs
  rw [Taking.seq]
  cases hread : f s with
  | read t =>
    rw [hread] at hstep
    exact hstep.trans (hg k hk t (hs.of_suffix (hends s t hread)))
  | refused => rwa [hread] at hstep
  | stuck => rwa [hread] at hstep

section Spans

variable {rs : List Regex} {p : Plan} (hstep : Mirrors follow step p.takes)
  (hspans : Spans follow rs p) (hplain : p.IsPlain)

include hstep hspans hplain

/-- **What comes next in front of expressions**: what they start with, or what comes behind them. -/
theorem needs (hk : k.Needs follow) : (step k).Needs (followBeforeAll rs follow) := by
  intro s hs hne
  rw [hstep k (.inr hk) s hs] at hne
  cases hread : p.takes s with
  | refused => exact absurd (congrArg (resume · k) hread) hne
  | stuck => exact absurd (congrArg (resume · k) hread) hne
  | read t =>
    rw [hread] at hne
    have ht := hs.of_suffix (p.leavesEnd_takes s t hread)
    cases s with
    | nil =>
      obtain ⟨c, u, hnil, -⟩ := hk t ht hne
      rw [List.suffix_nil.1 (p.leavesEnd_takes [] t hread)] at hnil
      cases hnil
    | cons c s =>
      refine ⟨c, s, rfl, (has_followBeforeAll rs follow _).2 ?_⟩
      rcases hplain.skips_or_starts hs.head hread with ⟨rfl, hskips⟩ | ⟨-, hstarts⟩
      · obtain ⟨d, u, heq, hd⟩ := hk _ ht hne
        cases heq
        exact .inr ⟨hspans.skips_iff.1 hskips, hd⟩
      · exact .inl (hspans.starts c hs.head hstarts)

theorem fits (hsteady : p.IsSteady) (hk : k.Fits follow) :
    (step k).Fits (followBeforeAll rs follow) := by
  rcases hk with htotal | hneeds
  · by_cases hskips : p.skips = true
    · left
      intro s hs
      rw [hstep k (.inl htotal) s hs]
      cases hread : p.takes s with
      | refused => exact absurd hread (hplain.takes_ne_refused hskips s)
      | stuck => exact absurd hread (hsteady.takes_ne_stuck hplain s)
      | read t => exact htotal t (hs.of_suffix (p.leavesEnd_takes s t hread))
    · right
      intro s hs hne
      rw [hstep k (.inl htotal) s hs] at hne
      cases hread : p.takes s with
      | refused => exact absurd (congrArg (resume · k) hread) hne
      | stuck => exact absurd (congrArg (resume · k) hread) hne
      | read t =>
        have hon : p.getsOn = true := by rw [hspans.getsOn, Bool.eq_false_iff.2 hskips]; rfl
        have hlt := hplain.getsOn_takes hon s t hread
        cases s with
        | nil => cases hlt
        | cons c s =>
          refine ⟨c, s, rfl, (has_followBeforeAll rs follow _).2 (.inl ?_)⟩
          rcases hplain.skips_or_starts hs.head hread with ⟨-, h⟩ | ⟨-, hstarts⟩
          · exact absurd h hskips
          · exact hspans.starts c hs.head hstarts
  · exact .inr (hstep.needs hspans hplain hneeds)

end Spans

/-! ### Repetitions -/

section Repetitions

variable {body : Regex} {p : Plan}
  (hstep : Mirrors ((firstBytes body).union follow) step p.takes)
  (hspans : Spans ((firstBytes body).union follow) [body] p) (hplain : p.IsPlain)
  (hsteady : p.IsSteady)

theorem has_union_right {s t : ByteSet} (n : Nat) (h : t.has n = true) :
    (s.union t).has n = true := by
  rw [ByteSet.has_union, h, Bool.or_true]

/-- What comes next in front of a body is what it starts with, or what comes behind it. -/
theorem has_followBeforeAll_body (n : Nat)
    (h : (followBeforeAll [body] ((firstBytes body).union follow)).has n = true) :
    ((firstBytes body).union follow).has n = true := by
  rcases (has_followBeforeAll [body] _ n).1 h with h | ⟨-, h⟩
  · rw [has_firstBytesSeq_singleton] at h
    rw [ByteSet.has_union, h, Bool.true_or]
  · exact h

include hstep hspans hplain in
theorem needs_body (hk : k.Needs ((firstBytes body).union follow)) :
    (step k).Needs ((firstBytes body).union follow) :=
  (hstep.needs hspans hplain hk).mono has_followBeforeAll_body

include hstep hspans hplain hsteady in
theorem fits_body (hk : k.Fits ((firstBytes body).union follow)) :
    (step k).Fits ((firstBytes body).union follow) :=
  (hstep.fits hspans hplain hsteady hk).mono has_followBeforeAll_body

include hspans hplain in
/-- **Coming back does not help**: where the body takes something, what follows cannot start. -/
theorem ne_none_of_read (happart : (firstBytes body).intersects follow = false)
    (hk : k.Fits follow) {s t : List Char} (hs : IsAscii s) (hread : p.takes s = .read t)
    (hne : k (encode s) ≠ none) : k (encode t) ≠ none := by
  have ht := hs.of_suffix (p.leavesEnd_takes s t hread)
  rcases hk with htotal | hneeds
  · exact htotal t ht
  · obtain ⟨c, u, rfl, hc⟩ := hneeds s hs hne
    rcases hplain.skips_or_starts hs.head hread with ⟨rfl, -⟩ | ⟨-, hstarts⟩
    · exact hne
    · have hfirst := hspans.starts c hs.head hstarts
      rw [has_firstBytesSeq_singleton] at hfirst
      rw [ByteSet.not_has_of_intersects happart hfirst] at hc
      cases hc

include hstep hspans hplain hsteady in
/-- A fixed number of times in front of a search. -/
theorem exactly {ps : List Plan} {k' : Search} (hk' : k'.Fits ((firstBytes body).union follow))
    (hps : ∀ s, IsAscii s → k' (encode s) = resume ((Plan.row ps).takes s) k) (n : Nat) :
    (Search.exactly step k' n).Fits ((firstBytes body).union follow) ∧ ∀ s, IsAscii s →
      Search.exactly step k' n (encode s) =
        resume ((Plan.row (List.replicate n p ++ ps)).takes s) k := by
  induction n with
  | zero => exact ⟨hk', hps⟩
  | succ n ih =>
    obtain ⟨hfits, hn⟩ := ih
    refine ⟨hstep.fits_body hspans hplain hsteady hfits, fun s hs => ?_⟩
    have hfirst := hstep _ hfits s hs
    rw [List.replicate_succ, List.cons_append, Plan.takes_row_cons, Taking.seq]
    cases hread : p.takes s with
    | read t =>
      rw [hread] at hfirst
      exact hfirst.trans (hn t (hs.of_suffix (p.leavesEnd_takes s t hread)))
    | refused => rwa [hread] at hfirst
    | stuck => rwa [hread] at hfirst

/-- Where the body is refused, it is refused however often it may come. -/
theorem takes_optionals {s : List Char} (h : p.takes s = .refused) (n : Nat) :
    (Plan.row (List.replicate n (.optional p))).takes s = .read s := by
  induction n with
  | zero => rfl
  | succ n ih =>
    rw [List.replicate_succ, Plan.takes_row_cons, Taking.seq, Plan.takes, Taking.optional, h,
      Reading.orElse_refused, Reading.bind_read, ih]

include hstep hspans hplain hsteady in
/-- A limited number of times. -/
theorem atMost (hk : k.Fits follow) (n : Nat)
    (happart : n ≠ 0 → (firstBytes body).intersects follow = false) :
    (Search.atMost step true k n).Fits ((firstBytes body).union follow) ∧ ∀ s, IsAscii s →
      Search.atMost step true k n (encode s) =
        resume ((Plan.row (List.replicate n (.optional p))).takes s) k := by
  induction n with
  | zero => exact ⟨hk.mono has_union_right, fun s _ => rfl⟩
  | succ n ih =>
    have happart := happart (Nat.succ_ne_zero n)
    obtain ⟨hfits, hn⟩ := ih fun _ => happart
    have hmore := hstep.fits_body hspans hplain hsteady hfits
    refine ⟨hmore.moreOr (hk.mono has_union_right) true, fun s hs => ?_⟩
    have hfirst := hstep _ hfits s hs
    show ((step (Search.atMost step true k n) (encode s)).or (k (encode s))) = _
    rw [List.replicate_succ, Plan.takes_row_cons, Taking.seq, Plan.takes, Taking.optional]
    cases hread : p.takes s with
    | stuck => exact absurd hread (hsteady.takes_ne_stuck hplain s)
    | refused =>
      rw [hread] at hfirst
      rw [hfirst, Reading.orElse_refused, Reading.bind_read, takes_optionals hread]
      rfl
    | read t =>
      rw [hread] at hfirst
      rw [Reading.orElse_read, Reading.bind_read,
        ← hn t (hs.of_suffix (p.leavesEnd_takes s t hread)), hfirst]
      show (Search.atMost step true k n (encode t)).or (k (encode s)) = _
      cases hrest : Search.atMost step true k n (encode t) with
      | some x => rfl
      | none =>
        -- what failed behind the body fails in front of it
        by_contra hne
        exact Search.atMost_ne_none
          (ne_none_of_read hspans hplain happart hk hs hread hne) n hrest

include hstep hspans hplain in
theorem needs_anyNumber (hk : k.Needs follow) (n : Nat) :
    (Search.anyNumber step true k n).Needs ((firstBytes body).union follow) := by
  have hstop : k.Needs ((firstBytes body).union follow) := hk.mono has_union_right
  induction n with
  | zero => exact hstop
  | succ n ih =>
    intro s hs
    have hmore := hstep.needs_body hspans hplain (ih.ite hstop (·.length < (encode s).length))
    exact hmore.moreOr hstop true s hs

include hstep hspans hplain in
/-- What comes next in front of a loop, as long as it may go on and behind that. -/
theorem fits_anyNumber (hk : k.Fits follow) (n : Nat) (more : List UInt8 → Prop)
    [DecidablePred more] : Search.Fits ((firstBytes body).union follow) fun s =>
      if more s then Search.anyNumber step true k n s else k s := by
  rcases hk with htotal | hneeds
  · have hloop : (Search.anyNumber step true k n).IsTotal :=
      fun s hs => Search.anyNumber_ne_none (htotal s hs) n
    exact .inl (hloop.ite htotal more)
  · have hloop := hstep.needs_anyNumber hspans hplain hneeds n
    exact .inr (hloop.ite (hneeds.mono has_union_right) more)

include hstep hspans hplain hsteady in
theorem anyNumber (hon : p.getsOn = true) (happart : (firstBytes body).intersects follow = false)
    (hk : k.Fits follow) {n m : Nat} {s : List Char} (hs : IsAscii s) (hn : s.length ≤ n)
    (hm : s.length < m) :
    Search.anyNumber step true k n (encode s) = resume (Taking.loop p.takes m s) k := by
  induction n generalizing s m with
  | zero =>
    obtain ⟨m, rfl⟩ : ∃ l, m = l + 1 := ⟨m - 1, by omega⟩
    rw [Taking.loop]
    cases hread : p.takes s with
    | stuck => exact absurd hread (hsteady.takes_ne_stuck hplain s)
    | refused => rfl
    | read t =>
      have hlt := hplain.getsOn_takes hon s t hread
      omega
  | succ n ih =>
    obtain ⟨m, rfl⟩ : ∃ l, m = l + 1 := ⟨m - 1, by omega⟩
    have hfits := hstep.fits_anyNumber hspans hplain hk n (·.length < (encode s).length)
    have hfirst := hstep _ hfits s hs
    show (step _ (encode s)).or (k (encode s)) = _
    rw [Taking.loop]
    cases hread : p.takes s with
    | stuck => exact absurd hread (hsteady.takes_ne_stuck hplain s)
    | refused =>
      rw [hread] at hfirst
      rw [hfirst]
      rfl
    | read t =>
      have ht := hs.of_suffix (p.leavesEnd_takes s t hread)
      have hlt := hplain.getsOn_takes hon s t hread
      have hshort : (encode t).length < (encode s).length := by
        rwa [length_encode ht, length_encode hs]
      rw [hread] at hfirst
      simp only [resume, if_pos hshort] at hfirst
      simp only [if_pos hlt]
      rw [← ih ht (m := m) (by omega) (by omega), hfirst]
      cases hrest : Search.anyNumber step true k n (encode t) with
      | some x => rfl
      | none =>
        by_contra hne
        exact Search.anyNumber_ne_none
          (ne_none_of_read hspans hplain happart hk hs hread hne) n hrest

include hstep hspans hplain hsteady in
/-- A search with a loop in front of it. -/
theorem star (hon : p.getsOn = true) (happart : (firstBytes body).intersects follow = false)
    (hk : k.Fits follow) :
    Search.Fits ((firstBytes body).union follow)
        (fun s => Search.anyNumber step true k s.length s) ∧
      ∀ s, IsAscii s → Search.anyNumber step true k (encode s).length (encode s) =
        resume ((Plan.row [.star p]).takes s) k := by
  refine ⟨?_, fun s hs => ?_⟩
  · rcases hk with htotal | hneeds
    · exact .inl fun s hs => Search.anyNumber_ne_none (htotal s hs) _
    · exact .inr fun s hs => hstep.needs_anyNumber hspans hplain hneeds _ s hs
  · show _ = resume (Taking.star p.takes s) k
    rw [(hplain.getsOn_takes hon).star_eq]
    exact hstep.anyNumber hspans hplain hsteady hon happart hk hs 
      (Nat.le_of_eq (length_encode hs).symm) (Nat.lt_succ_self _)

end Repetitions

/-- **A repetition takes all it can**, if that cannot be what follows. -/
theorem repetition {holds : Anchor → List UInt8 → Bool} {body : Regex} {p : Plan}
    (hbody : Mirrors ((firstBytes body).union follow) (search holds body) p.takes)
    (hspans : Spans ((firstBytes body).union follow) [body] p) (hplain : p.IsPlain)
    (hsteady : p.IsSteady) {least : Nat} {most : Option Nat}
    (hle : ∀ m, most = some m → least ≤ m) (hon : most = none → p.getsOn = true)
    (happart : most ≠ some least → (firstBytes body).intersects follow = false) :
    Mirrors follow (search holds (.repetition body least most true))
      (p.repeated (lowerTimes least most)).takes := by
  intro k hk s hs
  rw [repeated_lowerTimes p hle]
  cases most with
  | some m =>
    have hmore : m - least ≠ 0 → (firstBytes body).intersects follow = false := by
      intro hne
      refine happart fun hm => hne ?_
      rw [Option.some.inj hm, Nat.sub_self]
    obtain ⟨hfits, hrest⟩ := hbody.atMost hspans hplain hsteady hk (m - least) hmore
    exact (hbody.exactly hspans hplain hsteady hfits hrest least).2 s hs
  | none =>
    have hapart := happart fun h => by cases h
    obtain ⟨hfits, hrest⟩ := hbody.star hspans hplain hsteady (hon rfl) hapart hk
    exact (hbody.exactly hspans hplain hsteady hfits hrest least).2 s hs

/-! ### Choices -/

section Branch

variable {holds : Anchor → List UInt8 → Bool} {r : Regex} {rs : List Regex} (hr : r.IsNormal)
  (hrc : r.IsConcrete) (hrs : AllNormal rs) (hrsc : AllConcrete rs)
  (hsettles : follow = .empty ∨ ∀ q ∈ rs, settles follow r q = true)

include hr hrc hrs hrsc hsettles

/-- Once a branch has matched and what follows has failed, later branches fail as well. -/
theorem searchAny_eq_none {k : Search} (hk : k.Needs follow) {s : List Char} (hs : IsAscii s)
    {t : List UInt8} (ht : r.Matches holds (encode s) t) :
    searchAny holds rs k (encode s) = none := by
  by_contra hne
  obtain ⟨x, hx⟩ := Option.ne_none_iff_exists'.1 hne
  obtain ⟨u, hu, hku⟩ := (finds_searchAny holds rs hrs).sound hx
  obtain ⟨v, hv, rfl⟩ := exists_encode_of_suffix hs (leavesEnd_matchesAny holds rs hu)
  obtain ⟨c, w, rfl, hc⟩ := hk v (hs.of_suffix hv) (by simp [hku])
  rcases hsettles with rfl | hsettles
  · rw [ByteSet.has_empty] at hc
    cases hc
  · have hascii := (hs.of_suffix hv).head
    obtain ⟨q, hq, hmatch⟩ := exists_of_matchesAny holds hu
    rw [encode_cons hascii] at hmatch
    have hno := not_has_of_settles holds hr hrc (allNormal_iff.1 hrs q hq)
      (allConcrete_iff.1 hrsc q hq) (hsettles q hq) ht hmatch
    rw [toNat_toUInt8 hascii, hc] at hno
    cases hno

/-- **A choice keeps to its first branch that matches**, if that settles it. -/
theorem branch {f g : Taking} (hf : Mirrors follow (search holds r) f)
    (hg : Mirrors follow (searchAny holds rs) g) (hends : f.LeavesEnd)
    (hstuck : ∀ s, f s ≠ .stuck) :
    Mirrors follow (searchAny holds (r :: rs)) (Taking.choice f g) := by
  intro k hk s hs
  have hfirst := hf k hk s hs
  show (search holds r k (encode s)).or (searchAny holds rs k (encode s)) = resume ((f s).orElse _) k
  cases hread : f s with
  | stuck => exact absurd hread (hstuck s)
  | refused =>
    rw [hread] at hfirst
    rw [hfirst, resume, Option.none_or, Reading.orElse_refused]
    exact hg k hk s hs
  | read t =>
    rw [hread] at hfirst
    rw [hfirst, Reading.orElse_read, resume]
    cases hkt : k (encode t) with
    | some x => rfl
    | none =>
      have hmatched := hf some (.inl fun _ _ => Option.some_ne_none _) s hs
      rw [hread] at hmatched
      obtain ⟨u, hu, hut⟩ := (finds_search holds r hr).sound hmatched
      cases hut
      rcases hk with htotal | hneeds
      · exact absurd hkt (htotal t (hs.of_suffix (hends s t hread)))
      · exact searchAny_eq_none hr hrc hrs hrsc hsettles hneeds hs hu

end Branch

end Mirrors

/-! ## Expressions -/

section Leaves

variable {follow : ByteSet} (holds : Anchor → List UInt8 → Bool)

theorem mirrors_literal {bytes : List UInt8} {w : List Char} (h : decode? bytes = some w) :
    Mirrors follow (search holds (.literal bytes)) (Taking.text w) := by
  intro k _ s hs
  rw [search_literal, isPrefixOf_encode h hs, Taking.text]
  split
  · rename_i hw
    rw [drop_encode h hs hw]
    rfl
  · rfl

/-- What a class leaves of an ASCII text. -/
theorem rest?_encode (c : CharClass) {s : List Char} (hs : IsAscii s) :
    c.rest? (encode s) =
      match s with
      | [] => none
      | d :: t => if c.set.has d.toNat then some (encode t) else none := by
  cases s with
  | nil => cases c <;> rfl
  | cons d t =>
    have hd := hs.head
    have hbyte : d.toNat.toUInt8.toNat < 0x80 := by rwa [toNat_toUInt8 hd]
    rw [encode_cons hd]
    cases c with
    | bytes set =>
      rw [CharClass.rest?, toNat_toUInt8 hd]
      rfl
    | chars set =>
      rw [CharClass.rest?, decodeChar?_ascii hbyte, toNat_toUInt8 hd, Char.ofNat_toNat]
      rfl

theorem mirrors_charClass {c : CharClass} (hc : c.set.IsOrdered) {e : Expr}
    (h : lowerClass c.set = .ok e) :
    Mirrors follow (search holds (.charClass c)) (e.plan fun _ => none).takes := by
  intro k _ s hs
  rw [search_charClass, rest?_encode c hs, agrees_lowerClass hc h s hs]
  cases s with
  | nil => rfl
  | cons d t =>
    simp only [Taking.char]
    split
    · rfl
    · rfl

end Leaves

namespace Lowers

variable {follow : ByteSet} {rs : List Regex} {es : List Expr}

theorem allNormal (h : Lowers follow rs es) : AllNormal rs := by
  induction h with
  | nil => exact trivial
  | cons _ _ ih ihs => exact ⟨ih.1, ihs⟩
  | empty | literal => exact ⟨trivial, trivial⟩
  | charClass hc _ => exact ⟨hc, trivial⟩
  | repetition _ horder _ ih => exact ⟨⟨ih.1, horder⟩, trivial⟩
  | capture _ ih => exact ih
  | concat _ ih => exact ⟨ih, trivial⟩
  | lastBranch _ ih => exact ⟨⟨List.cons_ne_nil _ _, ih⟩, trivial⟩
  | branch _ _ _ _ _ ih ihs => exact ⟨⟨List.cons_ne_nil _ _, ih.1, ihs.1.2⟩, trivial⟩

theorem allConcrete (h : Lowers follow rs es) : AllConcrete rs := by
  induction h with
  | nil => exact trivial
  | cons _ _ ih ihs => exact ⟨ih.1, ihs⟩
  | empty | literal => exact ⟨trivial, trivial⟩
  | charClass _ hc => exact ⟨set_ne_nil_of_lowerClass hc, trivial⟩
  | repetition _ _ _ ih => exact ⟨ih.1, trivial⟩
  | capture _ ih => exact ih
  | concat _ ih => exact ⟨ih, trivial⟩
  | lastBranch _ ih => exact ⟨ih, trivial⟩
  | branch _ _ _ _ _ ih ihs => exact ⟨⟨ih.1, ihs.1⟩, trivial⟩

theorem isSteady_planRow (h : Lowers follow rs es) : (planRow es).IsSteady := by
  refine Plan.isSteady_row fun p hp => ?_
  obtain ⟨e, he, rfl⟩ := List.mem_map.1 hp
  exact (h.isLexical e he).isSteady_plan rfl (h.isSteady e he)

/-- **The search for expressions does what they are lowered to.** -/
theorem mirrors (holds : Anchor → List UInt8 → Bool) (h : Lowers follow rs es) :
    Mirrors follow (searchSeq holds rs) (planRow es).takes := by
  induction h with
  | nil => exact fun k _ s _ => rfl
  | @cons _ r rs e es hr hrs ih ihs =>
    have hseq := ih.seq ihs (planRow [e]).leavesEnd_takes fun k hk =>
      ihs.fits hrs.spans hrs.isPlain hrs.isSteady_planRow hk
    rw [planRow, List.map_cons, Plan.takes_row_cons]
    exact hseq
  | empty => exact fun k _ s _ => rfl
  | @literal _ bytes w h =>
    show Mirrors _ _ (Taking.text (String.ofList w).toList)
    rw [String.toList_ofList]
    exact mirrors_literal holds h
  | charClass hc h => exact mirrors_charClass holds hc h
  | @repetition _ body least most e hbody horder happart ih =>
    have hlex : e.IsLexical := hbody.isLexical e List.mem_cons_self
    have hon (hmost : most = none) := hbody.getsOn_body (horder.body_pos hmost)
    show Mirrors _ _ ((e.repeated (lowerTimes least most)).plan fun _ => none).takes
    rw [hlex.plan_repeated rfl]
    exact ih.repetition hbody.spans hbody.isPlain hbody.isSteady_planRow
      (fun m hm => (horder.most_le m hm).1) hon happart
  | capture _ ih => exact ih
  | @concat _ parts es _ ih =>
    have htracks : (planRow es).Tracks ((Expr.sequence es).plan fun _ => none) :=
      Expr.tracks_sequence es
    intro k hk s hs
    show _ = resume (((Expr.sequence es).plan fun _ => none).takes s) k
    rw [htracks.takes]
    exact ih k hk s hs
  | @lastBranch _ r e _ ih =>
    intro k hk s hs
    show (search holds r k (encode s)).or none =
      resume (((Expr.firstOf [e]).plan fun _ => none).takes s) k
    rw [Option.or_none, takes_firstOf (List.cons_ne_nil e []), firstTaking_singleton]
    exact ih k hk s hs
  | @branch _ r rs e es hfirst hlater hrs hes hsettles ih ihs =>
    have hlex : e.IsLexical := hfirst.isLexical e List.mem_cons_self
    show Mirrors _ (searchAny holds (r :: rs)) ((Expr.firstOf (e :: es)).plan fun _ => none).takes
    rw [takes_firstOf (List.cons_ne_nil e es), firstTaking_cons, ← takes_firstOf hes]
    exact .branch hfirst.allNormal.1 hfirst.allConcrete.1 hlater.allNormal.1.2
      hlater.allConcrete.1 hsettles ih ihs (planRow [e]).leavesEnd_takes
      (hfirst.isSteady_planRow.takes_ne_stuck hfirst.isPlain)

end Lowers

end GrammarKit.Regex
