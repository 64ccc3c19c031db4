import GrammarKit.Peg.Checks
import GrammarKit.Proofs.Peg.Planning

/-!
# Plans that get on

A plain plan has an answer everywhere if each of its loops gets on, and it does if the checks found
no fault in the expression: what the checks ask of the body of a repetition is that it takes a
character, and no step that makes a plan of an expression gives that up.

* `Expr.getsOn`, `Plan.getsOn`: what takes a character whenever it matches.
* `Expr.IsSteady`, `Plan.IsSteady`: what gets on in all of its loops.
* **`Plan.IsSteady.takes_ne_stuck`**: a steady plan has an answer everywhere.
* `Expr.IsSteady.isSteady_routine`: the plan of a steady token is steady.
* **`Expr.IsLexical.isSteady_of_grammarFaults`**: tokens that pass the checks are steady.
-/

namespace GrammarKit.Peg

/-! ## Getting on -/

/-- Whether an expression takes a character whenever it matches. -/
def Expr.getsOn : Expr → Bool
  | text s => !s.toList.isEmpty
  | range .. | ref _ => true
  | repeated body times =>
    match times with
    | .optional | .star | .atMost _ => false
    | .plus => body.getsOn
    | .exactly n | .atLeast n => n != 0 && body.getsOn
    | .between n m => n != 0 && m != 0 && body.getsOn
  | seq left right => left.getsOn || right.getsOn
  | choice left right => left.getsOn && right.getsOn
  | anyCase _ | peek .. | push _ | ahead _ | notAhead _ => false

/-- Whether a repetition goes on as long as its body matches. -/
def Times.isLoop : Times → Bool
  | star | plus | atLeast _ => true
  | optional | exactly _ | atMost _ | between .. => false

/-- **Expressions that get on in all of their loops.** -/
def Expr.IsSteady : Expr → Prop
  | repeated body times => body.IsSteady ∧ (times.isLoop = true → body.getsOn = true)
  | seq left right | choice left right => left.IsSteady ∧ right.IsSteady
  | push body | ahead body | notAhead body => body.IsSteady
  | text _ | anyCase _ | range .. | ref _ | peek .. => True

namespace Plan

/-- Whether a plan takes a character whenever it matches. -/
def getsOn : Plan → Bool
  | text s => !s.toList.isEmpty
  | range .. | ref _ => true
  | seq left right => left.getsOn || right.getsOn
  | choice left right => left.getsOn && right.getsOn
  | anyCase _ | peek .. | push _ | ahead _ | notAhead _ | optional _ | star _ | upTo _
  | undoing _ => false

/-- **Plans that get on in all of their loops.** -/
def IsSteady : Plan → Prop
  | star body => body.IsSteady ∧ body.getsOn = true
  | seq left right | choice left right => left.IsSteady ∧ right.IsSteady
  | push body | ahead body | notAhead body | optional body | undoing body => body.IsSteady
  | text _ | anyCase _ | range .. | ref _ | peek .. | upTo _ => True

end Plan

/-! ## Answers -/

namespace Taking

/-- The function has an answer everywhere. -/
def Answers (f : Taking) : Prop := ∀ s, f s ≠ .stuck

/-- The function takes a character whenever it matches. -/
def GetsOn (f : Taking) : Prop := ∀ s t : List Char, f s = .read t → t.length < s.length

theorem text_ne_stuck (w : List Char) : (Taking.text w).Answers := by
  intro s h
  rw [Taking.text] at h
  split at h <;> cases h

theorem char_ne_stuck (p : Char → Bool) : (Taking.char p).Answers := by
  intro s h
  cases s with
  | nil => cases h
  | cons c s =>
    rw [Taking.char] at h
    split at h <;> cases h

theorem GetsOn.char (p : Char → Bool) : (Taking.char p).GetsOn := by
  intro s t h
  cases s with
  | nil => cases h
  | cons c s =>
    rw [Taking.char] at h
    split at h
    · cases h
      exact Nat.lt_succ_self _
    · cases h

/-- Where every time gets on, a loop may have more times than it needs. -/
theorem GetsOn.loop_eq {f : Taking} (hon : f.GetsOn) {m n : Nat} {s : List Char}
    (hm : s.length < m) (hn : s.length < n) : Taking.loop f m s = Taking.loop f n s := by
  induction m generalizing n s with
  | zero => exact absurd hm (Nat.not_lt_zero _)
  | succ m ih =>
    cases n with
    | zero => exact absurd hn (Nat.not_lt_zero _)
    | succ n =>
      rw [Taking.loop, Taking.loop]
      cases hs : f s with
      | read t =>
        have hlt := hon s t hs
        simp only [if_pos hlt]
        exact ih (by omega) (by omega)
      | refused => rfl
      | stuck => rfl

/-- Where every time gets on, the first one is like any other. -/
theorem GetsOn.star_eq {f : Taking} (hon : f.GetsOn) (s : List Char) :
    Taking.star f s = Taking.loop f (s.length + 1) s := by
  rw [Taking.star, Taking.loop]
  cases hs : f s with
  | read t =>
    have hlt := hon s t hs
    simp only [if_pos hlt]
    exact hon.loop_eq (Nat.lt_succ_self _) hlt
  | refused => rfl
  | stuck => rfl

namespace Answers

variable {f g : Taking}

theorem seq (hf : f.Answers) (hg : g.Answers) : (Taking.seq f g).Answers := by
  intro s h
  rw [Taking.seq] at h
  cases hs : f s with
  | read t =>
    rw [hs] at h
    exact hg t h
  | refused =>
    rw [hs] at h
    cases h
  | stuck => exact hf s hs

theorem choice (hf : f.Answers) (hg : g.Answers) : (Taking.choice f g).Answers := by
  intro s h
  rw [Taking.choice] at h
  cases hs : f s with
  | read t =>
    rw [hs] at h
    cases h
  | refused =>
    rw [hs] at h
    exact hg s h
  | stuck => exact hf s hs

theorem optional (hf : f.Answers) : (Taking.optional f).Answers :=
  choice hf fun _ h => by cases h

theorem notAhead (hf : f.Answers) : (Taking.notAhead f).Answers := by
  intro s h
  rw [Taking.notAhead] at h
  split at h
  · cases h
  · cases h
  · rename_i hs
    exact hf s hs

theorem loop (hf : f.Answers) (hon : f.GetsOn) {n : Nat} {s : List Char} (hn : s.length < n) :
    Taking.loop f n s ≠ .stuck := by
  induction n generalizing s with
  | zero => exact absurd hn (Nat.not_lt_zero _)
  | succ n ih =>
    rw [Taking.loop]
    cases hs : f s with
    | refused => exact fun h => by cases h
    | stuck => exact absurd hs (hf s)
    | read t =>
      have hlt := hon s t hs
      simp only [hlt, if_true]
      exact ih (by omega)

theorem star (hf : f.Answers) (hon : f.GetsOn) : (Taking.star f).Answers := by
  intro s
  rw [Taking.star]
  cases hs : f s with
  | refused => exact fun h => by cases h
  | stuck => exact absurd hs (hf s)
  | read t => exact loop hf hon (Nat.lt_succ_self _)

end Answers

end Taking

namespace Plan

variable {p q : Plan}

/-- A plain plan that gets on does so on every text. -/
theorem IsPlain.getsOn_takes (hp : p.IsPlain) (h : p.getsOn = true) : p.takes.GetsOn := by
  induction p with
  | text w =>
    intro s t hs
    rw [takes, Taking.text_eq_read] at hs
    have hw : w.toList ≠ [] := by simpa [getsOn] using h
    rw [hs, List.length_append]
    have := List.length_pos_of_ne_nil hw
    omega
  | range first last => exact .char _
  | ref name =>
    rw [takes]
    split
    · exact .char _
    · exact .char _
  | seq left right ihl ihr =>
    intro s t hs
    obtain ⟨u, hu, ht⟩ := Reading.bind_eq_read hs
    have hul := (left.leavesEnd_takes _ _ hu).length_le
    have htu := (right.leavesEnd_takes _ _ ht).length_le
    rcases Bool.or_eq_true_iff.1 h with h | h
    · exact Nat.lt_of_le_of_lt htu (ihl hp.1 h _ _ hu)
    · exact Nat.lt_of_lt_of_le (ihr hp.2 h _ _ ht) hul
  | choice left right ihl ihr =>
    intro s t hs
    obtain ⟨hl, hr⟩ := Bool.and_eq_true_iff.1 h
    rcases Reading.orElse_eq_read hs with hs | hs
    · exact ihl hp.1 hl _ _ hs
    · exact ihr hp.2 hr _ _ hs
  | anyCase | peek | push | ahead | notAhead | optional | star | upTo | undoing => cases h

/-- **A plain plan that is steady has an answer everywhere.** -/
theorem IsSteady.takes_ne_stuck (hp : p.IsPlain) (h : p.IsSteady) : p.takes.Answers := by
  induction p with
  | text w => exact Taking.text_ne_stuck _
  | range first last => exact Taking.char_ne_stuck _
  | ref name =>
    rw [takes]
    split
    · exact Taking.char_ne_stuck _
    · exact Taking.char_ne_stuck _
  | notAhead body =>
    obtain rfl := hp
    exact (Taking.char_ne_stuck _).notAhead
  | optional body ih => exact (ih hp h).optional
  | star body ih => exact (ih hp h.1).star (IsPlain.getsOn_takes hp h.2)
  | seq left right ihl ihr => exact (ihl hp.1 h.1).seq (ihr hp.2 h.2)
  | choice left right ihl ihr => exact (ihl hp.1 h.1).choice (ihr hp.2 h.2)
  | anyCase | peek | push | ahead | upTo | undoing => exact hp.elim

/-! ## Making plans -/

/-- What is kept of a plan: it stays steady, and it gets on as it did. -/
structure Keeps (p q : Plan) : Prop where
  isSteady : p.IsSteady → q.IsSteady
  getsOn : q.getsOn = p.getsOn

namespace Keeps

variable {p' q' r : Plan}

theorem refl (p : Plan) : p.Keeps p := ⟨id, rfl⟩

theorem trans (h : p.Keeps q) (h' : q.Keeps r) : p.Keeps r :=
  ⟨h'.isSteady ∘ h.isSteady, h'.getsOn.trans h.getsOn⟩

theorem seq (h : p.Keeps p') (h' : q.Keeps q') : (Plan.seq p q).Keeps (Plan.seq p' q') where
  isSteady hs := ⟨h.isSteady hs.1, h'.isSteady hs.2⟩
  getsOn := congrArg₂ Bool.or h.getsOn h'.getsOn

theorem choice (h : p.Keeps p') (h' : q.Keeps q') :
    (Plan.choice p q).Keeps (Plan.choice p' q') where
  isSteady hs := ⟨h.isSteady hs.1, h'.isSteady hs.2⟩
  getsOn := congrArg₂ Bool.and h.getsOn h'.getsOn

theorem star (h : p.Keeps p') : (Plan.star p).Keeps (Plan.star p') where
  isSteady hs := ⟨h.isSteady hs.1, h.getsOn.trans hs.2⟩
  getsOn := rfl

/-- A step of which only its body changes, and which never gets on. -/
theorem body {f : Plan → Plan} (hf : ∀ p, (f p).IsSteady ↔ p.IsSteady)
    (hon : ∀ p, (f p).getsOn = false) (h : p.Keeps p') : (f p).Keeps (f p') where
  isSteady hs := (hf p').2 (h.isSteady ((hf p).1 hs))
  getsOn := by simp [hon]

theorem join (p q : Plan) : (Plan.seq p q).Keeps (p.join q) := by
  rw [Plan.join.eq_def]
  split
  · rename_i s t
    refine ⟨fun _ => trivial, ?_⟩
    cases hs : s.toList <;> simp [Plan.getsOn, hs]
  · exact ⟨fun _ => trivial, rfl⟩
  · exact refl _

theorem joined (p : Plan) : p.Keeps p.joined := by
  induction p with
  | push body ih => exact ih.body (fun _ => Iff.rfl) fun _ => rfl
  | ahead body ih => exact ih.body (fun _ => Iff.rfl) fun _ => rfl
  | notAhead body ih => exact ih.body (fun _ => Iff.rfl) fun _ => rfl
  | optional body ih => exact ih.body (fun _ => Iff.rfl) fun _ => rfl
  | undoing body ih => exact ih.body (fun _ => Iff.rfl) fun _ => rfl
  | star body ih => exact ih.star
  | seq left right ihl ihr => exact (ihl.seq ihr).trans (join _ _)
  | choice left right ihl ihr => exact ihl.choice ihr
  | text | anyCase | range | ref | peek | upTo => exact refl _

theorem factor (tight : Bool) (p q : Plan) : (Plan.choice p q).Keeps (Plan.factor tight p q) := by
  rw [Plan.factor.eq_def]
  split
  · rename_i a b c d
    split
    · rename_i hac
      subst hac
      exact ⟨fun hs => ⟨hs.1.1, hs.1.2, hs.2.2⟩, Bool.or_and_distrib_left _ _ _⟩
    · exact refl _
  · rename_i a b _
    split
    · rename_i hab
      obtain rfl := hab.2
      refine ⟨fun hs => ⟨hs.1.1, hs.1.2⟩, ?_⟩
      cases ha : a.getsOn <;> simp [Plan.getsOn, ha]
    · exact refl _
  · rename_i l c d _
    split
    · rename_i hlc
      subst hlc
      refine ⟨fun hs => hs.1, ?_⟩
      cases hp : p.getsOn <;> simp [Plan.getsOn, hp]
    · exact refl _
  · exact refl _

theorem opened (tight : Bool) (p : Plan) : p.Keeps (p.opened tight) := by
  cases p with
  | choice left right => exact factor tight left right
  | _ => exact refl _

theorem mapParts {f : Plan → Plan} (hf : ∀ p : Plan, p.Keeps (f p)) (p : Plan) :
    p.Keeps (p.mapParts f) := by
  cases p with
  | push body => exact (hf body).body (fun _ => Iff.rfl) fun _ => rfl
  | ahead body => exact (hf body).body (fun _ => Iff.rfl) fun _ => rfl
  | notAhead body => exact (hf body).body (fun _ => Iff.rfl) fun _ => rfl
  | optional body => exact (hf body).body (fun _ => Iff.rfl) fun _ => rfl
  | undoing body => exact (hf body).body (fun _ => Iff.rfl) fun _ => rfl
  | star body => exact (hf body).star
  | seq left right => exact (hf left).seq (hf right)
  | choice left right => exact (hf left).choice (hf right)
  | text | anyCase | range | ref | peek | upTo => exact refl _

theorem factoredTo (tight : Bool) (n : Nat) (p : Plan) : p.Keeps (p.factoredTo tight n) := by
  induction n generalizing p with
  | zero => exact refl _
  | succ n ih => exact (opened tight p).trans (mapParts ih _)

theorem list (p q : Plan) : (Plan.seq p q).Keeps (p.list q) := by
  rw [Plan.list.eq_def]
  split
  · rename_i item separator
    split
    · rename_i hitem
      subst hitem
      refine ⟨fun hs => ⟨hs.1.1.1, ⟨hs.1.1.2, hs.2⟩, ?_⟩, ?_⟩
      · exact (Bool.or_comm _ _).trans hs.1.2
      · simp [Plan.getsOn]
    · exact refl _
  · exact refl _

theorem listed (p : Plan) : p.Keeps p.listed := by
  induction p with
  | push body ih => exact ih.body (fun _ => Iff.rfl) fun _ => rfl
  | ahead body ih => exact ih.body (fun _ => Iff.rfl) fun _ => rfl
  | notAhead body ih => exact ih.body (fun _ => Iff.rfl) fun _ => rfl
  | optional body ih => exact ih.body (fun _ => Iff.rfl) fun _ => rfl
  | undoing body ih => exact ih.body (fun _ => Iff.rfl) fun _ => rfl
  | star body ih => exact ih.star
  | seq left right ihl ihr => exact (ihl.seq ihr).trans (list _ _)
  | choice left right ihl ihr => exact ihl.choice ihr
  | text | anyCase | range | ref | peek | upTo => exact refl _

end Keeps

/-! ## Plans of repetitions -/

theorem isSteady_row {ps : List Plan} (h : ∀ p ∈ ps, p.IsSteady) : (row ps).IsSteady := by
  fun_induction row ps with
  | case1 => exact trivial
  | case2 p => exact h p List.mem_cons_self
  | case3 p ps hps ih =>
    exact ⟨h p List.mem_cons_self, ih fun q hq => h q (List.mem_cons_of_mem _ hq)⟩

/-- A row gets on if one of its plans does. -/
theorem getsOn_row (ps : List Plan) : (row ps).getsOn = ps.any getsOn := by
  fun_induction row ps with
  | case1 => rfl
  | case2 p => simp
  | case3 p ps hps ih => rw [getsOn, ih, List.any_cons]

theorem IsSteady.repeated (h : p.IsSteady) {times : Times}
    (hloop : times.isLoop = true → p.getsOn = true) : (p.repeated times).IsSteady := by
  have hmany (n : Nat) : ∀ q ∈ List.replicate n p, q.IsSteady :=
    fun q hq => (List.eq_of_mem_replicate hq).symm ▸ h
  have hmaybe (n : Nat) : ∀ q ∈ List.replicate n (Plan.optional p), q.IsSteady :=
    fun q hq => (List.eq_of_mem_replicate hq).symm ▸ h
  cases times with
  | optional => exact h
  | star => exact ⟨h, hloop rfl⟩
  | plus => exact ⟨h, h, hloop rfl⟩
  | exactly n => exact isSteady_row (hmany n)
  | atLeast n =>
    have hstar : (Plan.star p).IsSteady := ⟨h, hloop rfl⟩
    exact isSteady_row (List.forall_mem_append.2
      ⟨hmany n, fun q hq => List.mem_singleton.1 hq ▸ hstar⟩)
  | atMost n => exact isSteady_row (hmaybe n)
  | between n m => exact isSteady_row (List.forall_mem_append.2 ⟨hmany _, hmaybe _⟩)

end Plan

namespace Expr

variable {e : Expr}

/-! ## Plans of expressions -/

theorem isSteady_seqRight {r : Expr} : (e.seqRight r).IsSteady ↔ e.IsSteady ∧ r.IsSteady := by
  induction e generalizing r with
  | seq a b iha ihb =>
    rw [Expr.seqRight, iha, ihb, IsSteady, and_assoc]
  | _ => exact Iff.rfl

theorem isSteady_choiceRight {r : Expr} :
    (e.choiceRight r).IsSteady ↔ e.IsSteady ∧ r.IsSteady := by
  induction e generalizing r with
  | choice a b iha ihb =>
    rw [Expr.choiceRight, iha, ihb, IsSteady, and_assoc]
  | _ => exact Iff.rfl

theorem getsOn_seqRight {r : Expr} : (e.seqRight r).getsOn = (e.getsOn || r.getsOn) := by
  induction e generalizing r with
  | seq a b iha ihb => rw [Expr.seqRight, iha, ihb, getsOn, Bool.or_assoc]
  | _ => rfl

theorem getsOn_choiceRight {r : Expr} : (e.choiceRight r).getsOn = (e.getsOn && r.getsOn) := by
  induction e generalizing r with
  | choice a b iha ihb => rw [Expr.choiceRight, iha, ihb, getsOn, Bool.and_assoc]
  | _ => rfl

theorem getsOn_rightNested (e : Expr) : e.rightNested.getsOn = e.getsOn := by
  induction e with
  | seq left right ihl ihr => rw [rightNested, getsOn_seqRight, ihl, ihr, getsOn]
  | choice left right ihl ihr => rw [rightNested, getsOn_choiceRight, ihl, ihr, getsOn]
  | repeated body times ih => rw [rightNested, getsOn.eq_def, getsOn.eq_def]; simp only [ih]
  | _ => rfl

theorem isSteady_rightNested (e : Expr) : e.rightNested.IsSteady ↔ e.IsSteady := by
  induction e with
  | seq left right ihl ihr => rw [rightNested, isSteady_seqRight, ihl, ihr, IsSteady]
  | choice left right ihl ihr => rw [rightNested, isSteady_choiceRight, ihl, ihr, IsSteady]
  | repeated body times ih => rw [rightNested, IsSteady, ih, getsOn_rightNested, IsSteady]
  | push body ih => exact ih
  | ahead body ih => exact ih
  | notAhead body ih => exact ih
  | _ => exact Iff.rfl

variable {stops? : Expr → Option (List String)} (hstops : stops? (.ref "ASCII") = none)

include hstops

/-- The plan of a token gets on as the token does. -/
theorem IsLexical.getsOn_plan (h : e.IsLexical) : (e.plan stops?).getsOn = e.getsOn := by
  induction e with
  | text | range | ref | notAhead => rfl
  | seq left right ihl ihr => exact congrArg₂ Bool.or (ihl h.1) (ihr h.2)
  | choice left right ihl ihr => exact congrArg₂ Bool.and (ihl h.1) (ihr h.2)
  | repeated body times ih =>
    have hbody : body.IsLexical := h
    have hon := ih hbody
    rw [hbody.plan_repeated hstops]
    cases times with
    | optional | star => rfl
    | plus => simp [Plan.repeated, Plan.getsOn, getsOn, hon]
    | exactly n =>
      rw [Plan.repeated, Plan.getsOn_row, List.any_replicate, hon]
      cases n <;> simp [getsOn]
    | atLeast n =>
      rw [Plan.repeated, Plan.getsOn_row, List.any_append, List.any_replicate, hon]
      cases n <;> simp [getsOn, Plan.getsOn]
    | atMost n =>
      rw [Plan.repeated, Plan.getsOn_row, List.any_replicate]
      cases n <;> simp [getsOn, Plan.getsOn]
    | between n m =>
      rw [Plan.repeated, Plan.getsOn_row, List.any_append, List.any_replicate, List.any_replicate,
        hon]
      cases n <;> cases m <;> simp [getsOn, Plan.getsOn]
  | anyCase | peek | push | ahead => exact h.elim

theorem IsLexical.isSteady_plan (h : e.IsLexical) (hs : e.IsSteady) :
    (e.plan stops?).IsSteady := by
  induction e with
  | text | range | ref => exact trivial
  | notAhead body =>
    obtain rfl := h
    exact trivial
  | seq left right ihl ihr => exact ⟨ihl h.1 hs.1, ihr h.2 hs.2⟩
  | choice left right ihl ihr => exact ⟨ihl h.1 hs.1, ihr h.2 hs.2⟩
  | repeated body times ih =>
    have hbody : body.IsLexical := h
    rw [hbody.plan_repeated hstops]
    exact (ih h hs.1).repeated fun hloop =>
      (IsLexical.getsOn_plan hstops hbody).trans (hs.2 hloop)
  | anyCase | peek | push | ahead => exact h.elim

end Expr

namespace Expr.IsLexical

variable {rules : List Rule} {r : Rule} (h : r.body.IsLexical)
  (hascii : ∀ n, ruleTexts? rules n "ASCII" = none)

include h hascii

/-- **The plan of a steady token is steady.** -/
theorem isSteady_routine (hs : r.body.IsSteady) : (r.routine rules).plan.IsSteady :=
  Rule.routine_induct hascii
    (fun _ hstops => isSteady_plan hstops h.rightNested ((isSteady_rightNested _).2 hs))
    (fun p => (Plan.Keeps.joined p).isSteady)
    (fun tight n p => (Plan.Keeps.factoredTo tight n p).isSteady)
    fun p => (Plan.Keeps.listed p).isSteady

/-- The plan of a token gets on as its rule does. -/
theorem getsOn_routine : (r.routine rules).plan.getsOn = r.body.getsOn :=
  Rule.routine_induct (P := (Plan.getsOn · = r.body.getsOn)) hascii
    (fun _ hstops => (getsOn_plan hstops h.rightNested).trans (getsOn_rightNested _))
    (fun p => (Plan.Keeps.joined p).getsOn.trans)
    (fun tight n p => (Plan.Keeps.factoredTo tight n p).getsOn.trans)
    fun p => (Plan.Keeps.listed p).getsOn.trans

end Expr.IsLexical

/-! ## What the checks find -/

theorem repeatSteps_ne_nil {step : List Reserve → List Reserve}
    (hstep : ∀ rs, rs ≠ [] → step rs ≠ []) (n : Nat) {rs : List Reserve} (h : rs ≠ []) :
    repeatSteps step n rs ≠ [] := by
  induction n generalizing rs with
  | zero => exact h
  | succ n ih =>
    rw [repeatSteps]
    split
    · exact h
    · exact ih (hstep rs h)

theorem flatMap_ne_nil {α β : Type} {f : α → List β} (hf : ∀ x, f x ≠ []) {l : List α}
    (h : l ≠ []) : l.flatMap f ≠ [] := by
  obtain ⟨x, l, rfl⟩ := List.exists_cons_of_ne_nil h
  rw [List.flatMap_cons]
  exact List.append_ne_nil_of_left_ne_nil (hf x) _

theorem eraseDups_ne_nil {l : List Reserve} (h : l ≠ []) : l.eraseDups ≠ [] := by
  obtain ⟨x, l, rfl⟩ := List.exists_cons_of_ne_nil h
  rw [List.eraseDups_cons]
  exact List.cons_ne_nil _ _

/-- A token that does not get on stands still, whatever is known of other rules. -/
theorem Expr.IsLexical.stillWith_ne_nil {e : Expr} (h : e.IsLexical) (hsound : e.isSound = true)
    (hon : e.getsOn = false) (rule : String → Reserve → List Reserve) (r : Reserve) : e.stillWith rule r ≠ [] := by
  induction e generalizing r with
  | text s =>
    have hs : s.isEmpty = true := by simpa [getsOn] using hon
    rw [stillWith, if_pos hs]
    exact List.cons_ne_nil _ _
  | notAhead body => exact List.cons_ne_nil _ _
  | seq left right ihl ihr =>
    obtain ⟨hl, hr⟩ := Bool.or_eq_false_iff.1 hon
    obtain ⟨hsl, hsr⟩ := Bool.and_eq_true_iff.1 hsound
    exact flatMap_ne_nil (ihr h.2 hsr hr) (ihl h.1 hsl hl r)
  | choice left right ihl ihr =>
    obtain ⟨hsl, hsr⟩ := Bool.and_eq_true_iff.1 hsound
    refine eraseDups_ne_nil ?_
    rcases Bool.and_eq_false_iff.1 hon with hl | hr
    · exact List.append_ne_nil_of_left_ne_nil (ihl h.1 hsl hl r) _
    · exact List.append_ne_nil_of_right_ne_nil _ (ihr h.2 hsr hr r)
  | repeated body times ih =>
    obtain ⟨hbody, htimes⟩ := Bool.and_eq_true_iff.1 hsound
    have hstep (hon : body.getsOn = false) (rs : List Reserve) (hrs : rs ≠ []) :
        (rs.flatMap (body.stillWith rule)).eraseDups ≠ [] :=
      eraseDups_ne_nil (flatMap_ne_nil (ih h hbody hon) hrs)
    have hsome (n : Nat) (hon : n ≠ 0 → body.getsOn = false) :
        (if n == 0 then [r] else repeatSteps (fun rs =>
          (rs.flatMap (body.stillWith rule)).eraseDups) n [r]) ≠ [] := by
      split
      · exact List.cons_ne_nil _ _
      · rename_i hn
        exact repeatSteps_ne_nil (hstep (hon (by simpa using hn))) n (List.cons_ne_nil _ _)
    cases times with
    | optional | star | atMost => exact List.cons_ne_nil _ _
    | plus => exact hstep hon _ (List.cons_ne_nil _ _)
    | exactly n => exact hsome n fun hn => by simpa [getsOn, hn] using hon
    | atLeast n => exact hsome n fun hn => by simpa [getsOn, hn] using hon
    | between n m =>
      have hm : m ≠ 0 := by
        simp only [Times.isSound, Bool.and_eq_true, decide_eq_true_eq] at htimes
        omega
      exact hsome n fun hn => by simpa [getsOn, hn, hm] using hon
  | range | ref => cases hon
  | anyCase | peek | push | ahead => exact h.elim

/-- What the checks on repetitions accept gets on. -/
theorem Expr.IsLexical.getsOn_of_standsStill {e : Expr} (h : e.IsLexical)
    (hsound : e.isSound = true) {ds : List Definition} {trail : List String} {r : Reserve}
    (hstill : standsStill ds trail e r = false) : e.getsOn = true := by
  by_contra hon
  have hne := h.stillWith_ne_nil hsound (by simpa using hon)
    (throughRules ds (fun _ => []) Expr.stillWith ds.length trail) r.settle
  rw [standsStill, stillFrom, Bool.not_eq_false', List.isEmpty_iff] at hstill
  exact hne hstill

/-- **The checks find the loops that do not get on.** -/
theorem Expr.IsLexical.isSteady_of_repetitionFault? {ds : List Definition}
    {behind : Expr → Reserve → Reserve} {e : Expr} {r : Reserve} (h : e.IsLexical)
    (hsound : e.isSound = true)
    (hfaults : ∀ x ∈ (Term.ofExpr e).reserves behind r, repetitionFault? ds x = none) :
    e.IsSteady := by
  induction e generalizing r with
  | text | range | ref => exact trivial
  | notAhead body =>
    obtain rfl := h
    exact trivial
  | seq left right ihl ihr =>
    obtain ⟨hl, hr⟩ := Bool.and_eq_true_iff.1 hsound
    obtain ⟨-, hfaults⟩ := List.forall_mem_cons.1 hfaults
    obtain ⟨hfl, hfr⟩ := List.forall_mem_append.1 hfaults
    exact ⟨ihl h.1 hl hfl, ihr h.2 hr hfr⟩
  | choice left right ihl ihr =>
    obtain ⟨hl, hr⟩ := Bool.and_eq_true_iff.1 hsound
    obtain ⟨-, hfaults⟩ := List.forall_mem_cons.1 hfaults
    obtain ⟨hfl, hfr⟩ := List.forall_mem_append.1 hfaults
    exact ⟨ihl h.1 hl hfl, ihr h.2 hr hfr⟩
  | repeated body times ih =>
    have hbody : body.IsLexical := h
    obtain ⟨hs, -⟩ := Bool.and_eq_true_iff.1 hsound
    obtain ⟨hfault, hfaults⟩ := List.forall_mem_cons.1 hfaults
    refine ⟨ih hbody hs hfaults, fun hloop => ?_⟩
    have hstill : standsStill ds [] body r = false := by
      cases times with
      | star | plus | atLeast =>
        simp only [repetitionFault?, Term.expr_ofExpr] at hfault
        split at hfault
        · cases hfault
        · simpa using hfault
      | _ => cases hloop
    exact hbody.getsOn_of_standsStill hs hstill
  | anyCase | peek | push | ahead => exact h.elim

theorem runFaults_of_grammarFaults {source : List Char} {ds : List Definition}
    (h : grammarFaults source ds = []) : runFaults source ds = [] := by
  rw [grammarFaults] at h
  split at h
  · split at h
    · cases h
    · exact h
  · rename_i hne
    exact absurd h hne

/-- **Tokens that pass the checks are steady.** -/
theorem Expr.IsLexical.isSteady_of_grammarFaults {source : List Char} {rules : List Rule}
    (h : grammarFaults source (rules.map .ofRule) = []) {r : Rule} (hr : r ∈ rules)
    (hlex : r.body.IsLexical) (hsound : r.body.isSound = true) : r.body.IsSteady := by
  have hrun := runFaults_of_grammarFaults h
  rw [runFaults, ← List.length_eq_zero_iff, List.length_mergeSort, List.length_eq_zero_iff,
    List.append_eq_nil_iff, List.append_eq_nil_iff, List.append_eq_nil_iff,
    List.filterMap_eq_nil_iff] at hrun
  exact hlex.isSteady_of_repetitionFault? hsound fun x hx =>
    hrun.1.1.1 x (List.mem_flatMap.2 ⟨.ofRule r, List.mem_map_of_mem hr, hx⟩)

end GrammarKit.Peg
