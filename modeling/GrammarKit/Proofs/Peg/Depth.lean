import GrammarKit.Peg.Machine

/-!
# Nested calls

The bound on nested calls has no say in an answer: a run that gets one through some number of
nested calls gets the same one through any greater number.

* `Run.Le`: a run that answers alike wherever the other one answers, with a lemma per operator.
* `Plan.run_le`: a plan answers alike if its rules do.
* **`runRule_le`**: a rule answers alike through more nested calls.
-/

namespace GrammarKit.Peg

/-- Wherever the first run answers, the second gives the same answer. -/
def Run.Le (r t : Run) : Prop := ∀ st, r st ≠ .stuck → t st = r st

namespace Run.Le

variable {r r' t t' : Run}

theorem refl (r : Run) : r.Le r := fun _ _ => rfl

theorem trans {u : Run} (h : r.Le t) (h' : t.Le u) : r.Le u := fun st hst => by
  have ht := h st hst
  rw [← ht] at hst ⊢
  exact h' st hst

theorem andThen {o : Outcome} (h : t.Le t') (ho : o.andThen t ≠ .stuck) :
    o.andThen t' = o.andThen t := by
  cases o with
  | matched trees st =>
    have hst : t st ≠ .stuck := fun hst => ho (by rw [Outcome.andThen, hst])
    rw [Outcome.andThen, Outcome.andThen, h st hst]
  | failed stack a => rfl
  | stuck => rfl

theorem undoing (h : r.Le r') : (Run.undoing r).Le (Run.undoing r') := by
  intro st hst
  have hr : r st ≠ .stuck := fun hr => hst (by rw [Run.undoing, hr])
  rw [Run.undoing, Run.undoing, h st hr]

/-- One run after the other, where the first one is at hand. -/
theorem bothThen (h : r.Le r') (ht : t.Le t') :
    Run.Le (fun st => (r st).andThen t) fun st => (r' st).andThen t' := by
  intro st hst
  have hr : r st ≠ .stuck := fun hr => hst (by simp only [hr, Outcome.andThen])
  simp only at hst ⊢
  rw [h st hr]
  exact andThen ht hst

theorem seq (h : r.Le r') (ht : t.Le t') : (r.seq t).Le (r'.seq t') := undoing (bothThen h ht)

theorem choice (h : r.Le r') (ht : t.Le t') : (r.choice t).Le (r'.choice t') := by
  intro st hst
  have hr : r st ≠ .stuck := fun hr => hst (by rw [Run.choice, hr])
  rw [Run.choice] at hst ⊢
  rw [Run.choice, h st hr]
  cases ho : r st with
  | failed stack a =>
    rw [ho] at hst
    exact ht _ hst
  | matched trees next => rfl
  | stuck => rfl

theorem optional (h : r.Le r') : (Run.optional r).Le (Run.optional r') := by
  intro st hst
  have hr : r st ≠ .stuck := fun hr => hst (by rw [Run.optional, hr])
  rw [Run.optional, Run.optional, h st hr]

theorem ahead (h : r.Le r') : (Run.ahead r).Le (Run.ahead r') := by
  intro st hst
  have hr : r st ≠ .stuck := fun hr => hst (by rw [Run.ahead, hr])
  rw [Run.ahead, Run.ahead, h st hr]

theorem notAhead (h : r.Le r') : (Run.notAhead r).Le (Run.notAhead r') := by
  intro st hst
  have hr : r st ≠ .stuck := fun hr => hst (by rw [Run.notAhead, hr])
  rw [Run.notAhead, Run.notAhead, h st hr]

theorem push (h : r.Le r') : (Run.push r).Le (Run.push r') := by
  intro st hst
  have hr : r st ≠ .stuck := fun hr => hst (by rw [Run.push, hr])
  rw [Run.push, Run.push, h st hr]

theorem loopFrom (h : r.Le r') (ht : t.Le t') (n : Nat) :
    (Run.loopFrom r t n).Le (Run.loopFrom r' t' n) := by
  induction n with
  | zero => exact fun st hst => absurd rfl hst
  | succ n ih =>
    intro st hst
    have hr : r st ≠ .stuck := fun hr => hst (by rw [Run.loopFrom, hr])
    rw [Run.loopFrom] at hst ⊢
    rw [Run.loopFrom, h st hr]
    cases ho : r st with
    | failed stack a => rfl
    | stuck => rfl
    | matched trees next =>
      rw [ho] at hst
      simp only at hst ⊢
      split
      · rename_i hlt
        rw [if_pos hlt] at hst
        exact andThen ht hst
      · rename_i hlt
        rw [if_neg hlt] at hst
        split
        · rename_i hstack
          rw [if_pos hstack] at hst
          exact andThen ih hst
        · rfl

theorem loop (h : r.Le r') (n : Nat) : (Run.loop r n).Le (Run.loop r' n) := by
  induction n with
  | zero => exact fun st hst => absurd rfl hst
  | succ n ih => exact fun st hst => loopFrom h ih _ st hst

theorem star (h : r.Le r') : (Run.star r).Le (Run.star r') := fun st hst => loop h _ st hst

theorem starWith {gap gap' : Run} (hgap : gap.Le gap') (h : r.Le r') :
    (Run.starWith gap r).Le (Run.starWith gap' r') :=
  optional (bothThen h (hgap.seq h).star)

theorem shown (h : r.Le r') (ctx : Context) (name : String) :
    (Run.shown ctx name r).Le (Run.shown ctx name r') := by
  intro st hst
  have hr : r st ≠ .stuck := fun hr => hst (by rw [Run.shown, hr])
  rw [Run.shown, Run.shown, h st hr]

end Run.Le

/-! ## Plans and rules -/

section

variable {gap gap' : Context → Run} {call call' : Context → String → Run}

/-- A plan answers alike if its rules do. -/
theorem Plan.run_le (hgap : ∀ ctx, (gap ctx).Le (gap' ctx))
    (hcall : ∀ ctx name, (call ctx name).Le (call' ctx name)) (p : Plan) (ctx : Context) :
    (p.run gap call ctx).Le (p.run gap' call' ctx) := by
  induction p generalizing ctx with
  | text | anyCase | range | peek | upTo => exact .refl _
  | ref name => exact hcall ctx name
  | push body ih => exact (ih ctx).push
  | ahead body ih => exact (ih _).ahead
  | notAhead body ih => exact (ih _).notAhead
  | optional body ih => exact (ih ctx).optional
  | star body ih => exact .starWith (hgap ctx) (ih ctx)
  | seq left right ihl ihr => exact (ihl ctx).seq ((hgap ctx).seq (ihr ctx))
  | choice left right ihl ihr => exact (ihl ctx).choice (ihr ctx)
  | undoing body ih => exact (ih ctx).undoing

theorem gapRun_le (routines : List Routine) (hcall : ∀ ctx name, (call ctx name).Le (call' ctx name))
    (ctx : Context) : (gapRun routines call ctx).Le (gapRun routines call' ctx) := by
  intro st
  rw [gapRun, gapRun]
  split
  · exact fun _ => rfl
  · have hblanks := (hcall ctx "WHITESPACE").star
    have hcomment := (hcall ctx "COMMENT").star
    simp only
    split
    · exact fun _ => rfl
    · exact hblanks st
    · exact hcomment st
    · exact hblanks.seq ((hcall ctx "COMMENT").seq hblanks).star st

theorem Routine.run_le (r : Routine) {body body' : Context → Run}
    (h : ∀ ctx, (body ctx).Le (body' ctx)) (ctx : Context) :
    (r.run ctx body).Le (r.run ctx body') := by
  obtain ⟨name, kind, plan⟩ := r
  cases kind with
  | normal => exact (h _).shown ctx name
  | silent => exact h _
  | atomic => exact (h _).shown ctx name
  | compound => exact (h _).shown _ name
  | nonAtomic =>
    simp only [Routine.run]
    split
    · exact (h _).shown _ name
    · exact (h _).shown _ name

end

/-- **A rule answers alike through one more nested call.** -/
theorem runRule_le_succ (routines : List Routine) (length depth : Nat) (ctx : Context)
    (name : String) :
    (runRule routines length depth ctx name).Le (runRule routines length (depth + 1) ctx name) := by
  induction depth generalizing ctx name with
  | zero => exact fun st hst => absurd rfl hst
  | succ depth ih =>
    intro st
    rw [runRule, runRule]
    simp only
    split
    · exact fun _ => rfl
    · split
      · rename_i r _
        exact r.run_le (fun ctx => Plan.run_le (gapRun_le routines ih) ih r.plan ctx) ctx st
      · exact fun _ => rfl

/-- **A rule answers alike through more nested calls.** -/
theorem runRule_le (routines : List Routine) (length : Nat) {depth depth' : Nat}
    (h : depth ≤ depth') (ctx : Context) (name : String) :
    (runRule routines length depth ctx name).Le (runRule routines length depth' ctx name) := by
  induction h with
  | refl => exact .refl _
  | step _ ih => exact ih.trans (runRule_le_succ routines length _ ctx name)

end GrammarKit.Peg
