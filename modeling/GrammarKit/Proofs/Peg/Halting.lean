import GrammarKit.Proofs.Peg.Depth
import GrammarKit.Proofs.Peg.Progress

/-!
# Runs that end

A run has an answer through some number of nested calls if each of its steps has one wherever the
steps before it lead, and if its loops get on. Both are told operator by operator: what a run may
take, and where a family of runs, one for each number of nested calls, has an answer.

* `Run.Advances`: a run that leaves no more text than it finds, and less unless it may stand still.
* `Run.Deepens`: runs through more and more nested calls.
* `Run.Settles`: such runs have an answer through enough nested calls.
* **`Run.Settles.seq_chain`**, **`Run.Settles.choice_chain`**: rows of names.
-/

namespace GrammarKit.Peg

/-! ## What a run takes -/

/-- The run leaves no more text than it finds, and less text unless `still` holds. -/
def Run.Advances (r : Run) (still : Prop) : Prop :=
  ∀ st trees next, r st = .matched trees next →
    next.rest.length ≤ st.rest.length ∧ (next.rest.length = st.rest.length → still)

namespace Run.Advances

variable {r t again : Run} {a b : Prop}

theorem mono (h : r.Advances a) (hab : a → b) : r.Advances b :=
  fun st trees next hst => ⟨(h st trees next hst).1, hab ∘ (h st trees next hst).2⟩

theorem of_le (hle : r.Le t) (h : t.Advances a) : r.Advances a := by
  intro st trees next hst
  refine h st trees next ((hle st ?_).trans hst)
  rw [hst]
  exact fun h => by cases h

theorem stuck (a : Prop) : Run.Advances (fun _ => .stuck) a := fun _ _ _ hst => by cases hst

theorem lifts {f : Taking} (h : r.Lifts f) (hf : f.LeavesEnd)
    (ha : ∀ s t, f s = .read t → t.length = s.length → a) : r.Advances a := by
  intro st trees next hst
  rw [h st] at hst
  cases hread : f st.rest with
  | read t =>
    rw [hread] at hst
    cases hst
    exact ⟨(hf _ _ hread).length_le, ha _ _ hread⟩
  | refused => rw [hread] at hst; cases hst
  | stuck => rw [hread] at hst; cases hst

theorem of_andThen (h : r.Advances a) (ht : t.Advances b) {st next : State} {trees : List Tree}
    (hst : (r st).andThen t = .matched trees next) :
    next.rest.length ≤ st.rest.length ∧ (next.rest.length = st.rest.length → a ∧ b) := by
  cases hr : r st with
  | failed stack attempts => rw [hr] at hst; cases hst
  | stuck => rw [hr] at hst; cases hst
  | matched first mid =>
    rw [hr, Outcome.andThen] at hst
    cases hmid : t mid with
    | failed stack attempts => rw [hmid] at hst; cases hst
    | stuck => rw [hmid] at hst; cases hst
    | matched second last =>
      rw [hmid] at hst
      cases hst
      obtain ⟨hle, ha⟩ := h _ _ _ hr
      obtain ⟨hle', hb⟩ := ht _ _ _ hmid
      exact ⟨Nat.le_trans hle' hle, fun heq => ⟨ha (by omega), hb (by omega)⟩⟩

theorem undoing (h : r.Advances a) : (Run.undoing r).Advances a := by
  intro st trees next hst
  rw [Run.undoing] at hst
  cases hr : r st with
  | matched first mid => rw [hr] at hst; cases hst; exact h _ _ _ hr
  | failed stack attempts => rw [hr] at hst; cases hst
  | stuck => rw [hr] at hst; cases hst

theorem seq (h : r.Advances a) (ht : t.Advances b) : (r.seq t).Advances (a ∧ b) :=
  undoing fun _ _ _ => of_andThen h ht

theorem choice (h : r.Advances a) (ht : t.Advances b) : (r.choice t).Advances (a ∨ b) := by
  intro st trees next hst
  rw [Run.choice] at hst
  cases hr : r st with
  | matched first mid =>
    rw [hr] at hst
    cases hst
    exact h.mono .inl _ _ _ hr
  | failed stack attempts =>
    rw [hr] at hst
    exact ht.mono .inr (st.afterFailure stack attempts) _ _ hst
  | stuck => rw [hr] at hst; cases hst

theorem loopFrom (h : r.Advances a) (hagain : again.Advances True) (n : Nat) :
    (Run.loopFrom r again n).Advances True := by
  induction n with
  | zero => exact stuck True
  | succ n ih =>
    intro st trees next hst
    rw [Run.loopFrom] at hst
    cases hr : r st with
    | failed stack attempts =>
      rw [hr] at hst
      cases hst
      exact ⟨Nat.le_refl _, fun _ => trivial⟩
    | stuck => rw [hr] at hst; cases hst
    | matched first mid =>
      rw [hr] at hst
      simp only at hst
      split at hst
      · rw [← hr] at hst
        exact ⟨(of_andThen h hagain hst).1, fun _ => trivial⟩
      · split at hst
        · rw [← hr] at hst
          exact ⟨(of_andThen h ih hst).1, fun _ => trivial⟩
        · cases hst

theorem star (h : r.Advances a) : (Run.star r).Advances True := by
  have hloop (n : Nat) : (Run.loop r n).Advances True := by
    induction n with
    | zero => exact stuck True
    | succ n ih => exact fun st => loopFrom h ih _ st
  exact fun st => hloop _ st

theorem shown (h : r.Advances a) (ctx : Context) (name : String) :
    (Run.shown ctx name r).Advances a := by
  intro st trees next hst
  rw [Run.shown] at hst
  cases hr : r st with
  | failed stack attempts => rw [hr] at hst; cases hst
  | stuck => rw [hr] at hst; cases hst
  | matched first mid =>
    rw [hr] at hst
    simp only at hst
    have hmid := h _ _ _ hr
    split at hst <;> cases hst <;> exact hmid

theorem gapRun {routines : List Routine} {call : Context → String → Run} {ctx : Context}
    (hblanks : (call ctx "WHITESPACE").Advances True)
    (hcomment : (call ctx "COMMENT").Advances True) :
    (gapRun routines call ctx).Advances True := by
  intro st trees next hst
  rw [Peg.gapRun] at hst
  have hnothing (h : Outcome.matched [] st = .matched trees next) :
      next.rest.length ≤ st.rest.length ∧ (next.rest.length = st.rest.length → True) := by
    cases h
    exact ⟨Nat.le_refl _, fun _ => trivial⟩
  split at hst
  · exact hnothing hst
  · simp only at hst
    split at hst
    · exact hnothing hst
    · exact hblanks.star _ _ _ hst
    · exact hcomment.star _ _ _ hst
    · exact ((hblanks.star.seq (hcomment.seq hblanks.star).star).mono fun _ => trivial) _ _ _ hst

end Run.Advances

/-! ## Where runs have an answer -/

/-- Runs, one for each number of nested calls, that answer like the ones before. -/
def Run.Deepens (r : Nat → Run) : Prop := ∀ d, (r d).Le (r (d + 1))

/-- Through enough nested calls, there is an answer. -/
def Run.Settles (r : Nat → Run) (st : State) : Prop := ∃ d, r d st ≠ .stuck

theorem runRule_deepens (routines : List Routine) (length : Nat) (ctx : Context) (name : String) :
    Run.Deepens fun depth => runRule routines length depth ctx name :=
  fun depth => runRule_le_succ _ length depth ctx name

theorem gapRun_deepens (routines : List Routine) (length : Nat) (ctx : Context) :
    Run.Deepens fun depth => gapRun routines (runRule routines length depth) ctx :=
  fun depth => gapRun_le _ (fun ctx name => runRule_le_succ _ length depth ctx name) ctx

theorem Run.Deepens.le {r : Nat → Run} (h : Run.Deepens r) {d d' : Nat} (hd : d ≤ d') :
    (r d).Le (r d') := by
  induction hd with
  | refl => exact .refl _
  | step _ ih => exact ih.trans (h _)

namespace Run.Settles

variable {r t : Nat → Run} {st : State}

/-- Once there is an answer, it stays the same. -/
theorem eventually (hr : Deepens r) (h : Settles r st) :
    ∃ d, r d st ≠ .stuck ∧ ∀ d', d ≤ d' → r d' st = r d st := by
  obtain ⟨d, hd⟩ := h
  exact ⟨d, hd, fun d' hle => hr.le hle st hd⟩

theorem of_succ (h : Settles (fun d => r (d + 1)) st) : Settles r st := ⟨_, h.choose_spec⟩

/-- A step that always has an answer. -/
theorem const {f : Run} (h : f st ≠ .stuck) : Settles (fun _ => f) st := ⟨0, h⟩

theorem lifts {f : Run} {g : Taking} (h : f.Lifts g) (hg : g.Answers) (st : State) :
    f st ≠ .stuck := by
  rw [h st]
  cases hread : g st.rest with
  | stuck => exact absurd hread (hg _)
  | read t => exact fun h => by cases h
  | refused => exact fun h => by cases h

theorem andThen (hr : Deepens r) (ht : Deepens t) (h : Settles r st)
    (hnext : ∀ {d trees mid}, r d st = .matched trees mid → Settles t mid) :
    Settles (fun d => fun st => (r d st).andThen (t d)) st := by
  obtain ⟨d, hd, heq⟩ := h.eventually hr
  cases hst : r d st with
  | stuck => exact absurd hst hd
  | failed stack attempts => exact ⟨d, by simp [hst, Outcome.andThen]⟩
  | matched trees mid =>
    obtain ⟨d', hd', heq'⟩ := (hnext hst).eventually ht
    refine ⟨max d d', ?_⟩
    have hfirst := (heq _ (Nat.le_max_left d d')).trans hst
    have hsecond := heq' _ (Nat.le_max_right d d')
    simp only [hfirst, Outcome.andThen, hsecond]
    cases ho : t d' mid with
    | stuck => exact absurd ho hd'
    | matched more last => exact fun h => by cases h
    | failed stack attempts => exact fun h => by cases h

theorem undoing (h : Settles r st) : Settles (fun d => Run.undoing (r d)) st := by
  obtain ⟨d, hd⟩ := h
  refine ⟨d, ?_⟩
  simp only [Run.undoing]
  cases hst : r d st with
  | stuck => exact absurd hst hd
  | matched trees mid => exact fun h => by cases h
  | failed stack attempts => exact fun h => by cases h

theorem seq (hr : Deepens r) (ht : Deepens t) (h : Settles r st)
    (hnext : ∀ {d trees mid}, r d st = .matched trees mid → Settles t mid) :
    Settles (fun d => (r d).seq (t d)) st :=
  undoing (andThen hr ht h hnext)

theorem choice (hr : Deepens r) (ht : Deepens t) (h : Settles r st)
    (hnext : ∀ stack attempts, Settles t (st.afterFailure stack attempts)) :
    Settles (fun d => (r d).choice (t d)) st := by
  obtain ⟨d, hd, heq⟩ := h.eventually hr
  cases hst : r d st with
  | stuck => exact absurd hst hd
  | matched trees mid => exact ⟨d, by simp [Run.choice, hst]⟩
  | failed stack attempts =>
    obtain ⟨d', hd', heq'⟩ := (hnext stack attempts).eventually ht
    refine ⟨max d d', ?_⟩
    have hfirst := (heq _ (Nat.le_max_left d d')).trans hst
    have hsecond := heq' _ (Nat.le_max_right d d')
    simpa only [Run.choice, hfirst, hsecond] using hd'

theorem shown (h : Settles r st) (ctx : Context) (name : String) :
    Settles (fun d => Run.shown ctx name (r d)) st := by
  obtain ⟨d, hd⟩ := h
  refine ⟨d, ?_⟩
  simp only [Run.shown]
  cases hst : r d st with
  | stuck => exact absurd hst hd
  | failed stack attempts => exact fun h => by cases h
  | matched trees mid =>
    simp only
    split <;> exact fun h => by cases h

/-- A loop has an answer if each of its times has one and takes a character. -/
theorem star (hr : Deepens r) (hon : ∀ d, (r d).Advances False) (n : Nat)
    (h : ∀ st : State, st.rest.length ≤ n → Settles r st) (hst : st.rest.length ≤ n) :
    Settles (fun d => Run.star (r d)) st := by
  have hloop (k : Nat) : ∀ st : State, st.rest.length < k → st.rest.length ≤ n →
      Settles (fun d => Run.loop (r d) k) st := by
    induction k with
    | zero => exact fun st hk => absurd hk (Nat.not_lt_zero _)
    | succ k ih =>
      intro st hk hn
      obtain ⟨d, hd, heq⟩ := (h st hn).eventually hr
      cases ho : r d st with
      | stuck => exact absurd ho hd
      | failed stack attempts => exact ⟨d, by simp [Run.loop, Run.loopFrom, ho]⟩
      | matched trees mid =>
        have hlt : mid.rest.length < st.rest.length := by
          obtain ⟨hle, hne⟩ := hon d _ _ _ ho
          exact Nat.lt_of_le_of_ne hle hne
        obtain ⟨d', hd', heq'⟩ := (ih mid (by omega) (by omega)).eventually
          fun d => Run.Le.loop (hr d) k
        refine ⟨max d d', ?_⟩
        have hfirst := (heq _ (Nat.le_max_left d d')).trans ho
        have hsecond := heq' _ (Nat.le_max_right d d')
        simp only [Run.loop, Run.loopFrom, hfirst, if_pos hlt, Outcome.andThen]
        rw [hsecond]
        cases hm : Run.loop (r d') k mid with
        | stuck => exact absurd hm hd'
        | matched more last => exact fun h => by cases h
        | failed stack attempts => exact fun h => by cases h
  obtain ⟨d, hd⟩ := hloop _ st (Nat.lt_succ_self _) hst
  exact ⟨d, hd⟩

end Run.Settles

/-! ## Rows of names -/

section Chain

variable {gap : Nat → Context → Run} {call : Nat → Context → String → Run}
  (hgap : ∀ ctx, Run.Deepens fun d => gap d ctx)
  (hcall : ∀ ctx name, Run.Deepens fun d => call d ctx name)

include hgap hcall

theorem Plan.run_deepens (p : Plan) (ctx : Context) :
    Run.Deepens fun d => p.run (gap d) (call d) ctx :=
  fun d => p.run_le (fun ctx => hgap ctx d) (fun ctx name => hcall ctx name d) ctx

/-- **A sequence of names has an answer** if each name that can be called has one: any name on less
text, and those behind names that can stand still on the same text. -/
theorem Run.Settles.seq_chain {ctx : Context} {S : String → Prop}
    (hskip : ∀ st, Run.Settles (fun d => gap d ctx) st)
    (hgapOn : ∀ d, (gap d ctx).Advances True) {first : String} {names : List String}
    (hon : ∀ d, ∀ x ∈ first :: names, (call d ctx x).Advances (S x)) {st : State}
    (hless : ∀ x ∈ first :: names, ∀ st' : State, st'.rest.length < st.rest.length →
      Run.Settles (fun d => call d ctx x) st')
    (hsame : ∀ front x back, first :: names = front ++ x :: back → (∀ y ∈ front, S y) →
      ∀ st' : State, st'.rest.length = st.rest.length →
        Run.Settles (fun d => call d ctx x) st') :
    Run.Settles (fun d => (Plan.chain false first names).run (gap d) (call d) ctx) st := by
  induction names generalizing first st with
  | nil => exact hsame [] first [] rfl (List.forall_mem_nil _) st rfl
  | cons name names ih =>
    have htail := Plan.run_deepens hgap hcall (.chain false name names) ctx
    have hrest : Run.Deepens fun d =>
        (gap d ctx).seq ((Plan.chain false name names).run (gap d) (call d) ctx) :=
      fun d => (hgap ctx d).seq (htail d)
    refine .seq (hcall ctx first) hrest
      (hsame [] first _ rfl (List.forall_mem_nil _) st rfl) fun {d trees mid} hmid => ?_
    refine .seq (hgap ctx) htail (hskip mid) fun {d' trees' mid'} hmid' => ?_
    obtain ⟨hle, hstill⟩ := hon d first List.mem_cons_self _ _ _ hmid
    have hle' := (hgapOn d' _ _ _ hmid').1
    have hless' : ∀ x ∈ name :: names, ∀ st' : State, st'.rest.length < st.rest.length →
        Run.Settles (fun d => call d ctx x) st' :=
      fun x hx => hless x (List.mem_cons_of_mem _ hx)
    refine ih (fun d x hx => hon d x (List.mem_cons_of_mem _ hx))
      (fun x hx st' hlt => hless' x hx st' (by omega)) fun front x back hrow hfront st' heq => ?_
    -- On the same text, the first name has stood still.
    by_cases hsame' : mid'.rest.length = st.rest.length
    · refine hsame (first :: front) x back (by rw [hrow]; rfl) ?_ st' (heq.trans hsame')
      exact List.forall_mem_cons.2 ⟨hstill (by omega), hfront⟩
    · exact hless' x (hrow ▸ List.mem_append_right _ List.mem_cons_self) st' (by omega)

/-- **A choice of names has an answer** if each of them has one. -/
theorem Run.Settles.choice_chain {ctx : Context} {first : String} {names : List String}
    {st : State} (h : ∀ x ∈ first :: names, ∀ st' : State, st'.rest.length = st.rest.length →
      Run.Settles (fun d => call d ctx x) st') :
    Run.Settles (fun d => (Plan.chain true first names).run (gap d) (call d) ctx) st := by
  induction names generalizing first st with
  | nil => exact h first List.mem_cons_self st rfl
  | cons name names ih =>
    refine .choice (hcall ctx first) (Plan.run_deepens hgap hcall (.chain true name names) ctx)
      (h first List.mem_cons_self st rfl) fun stack attempts => ?_
    exact ih fun x hx st' heq => h x (List.mem_cons_of_mem _ hx) st' heq

omit hgap hcall in
/-- What a sequence of names takes: it stands still only if all of them do. -/
theorem Run.Advances.seq_chain {gap : Context → Run} {call : Context → String → Run}
    {ctx : Context} {S : String → Prop} (hgapOn : (gap ctx).Advances True) {first : String}
    {names : List String} (hon : ∀ x ∈ first :: names, (call ctx x).Advances (S x)) :
    ((Plan.chain false first names).run gap call ctx).Advances
      (∀ x ∈ first :: names, S x) := by
  induction names generalizing first with
  | nil => exact (hon first List.mem_cons_self).mono List.forall_mem_singleton.2
  | cons name names ih =>
    obtain ⟨hfirst, hnames⟩ := List.forall_mem_cons.1 hon
    exact (hfirst.seq (hgapOn.seq (ih hnames))).mono fun h => List.forall_mem_cons.2 ⟨h.1, h.2.2⟩

omit hgap hcall in
/-- What a choice of names takes: it stands still only if one of them does. -/
theorem Run.Advances.choice_chain {gap : Context → Run} {call : Context → String → Run}
    {ctx : Context} {S : String → Prop} {first : String} {names : List String}
    (hon : ∀ x ∈ first :: names, (call ctx x).Advances (S x)) :
    ((Plan.chain true first names).run gap call ctx).Advances
      (∃ x ∈ first :: names, S x) := by
  induction names generalizing first with
  | nil => exact (hon first List.mem_cons_self).mono fun h => ⟨first, List.mem_cons_self, h⟩
  | cons name names ih =>
    obtain ⟨hfirst, hnames⟩ := List.forall_mem_cons.1 hon
    exact (hfirst.choice (ih hnames)).mono fun h => (List.exists_mem_cons_iff ..).2 h

end Chain

end GrammarKit.Peg
