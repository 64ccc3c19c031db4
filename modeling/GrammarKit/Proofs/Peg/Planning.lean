import GrammarKit.Proofs.Grammar.Text
import GrammarKit.Proofs.Peg.Plain
import Mathlib.Data.List.Induction

/-!
# Plans of generated rules

Two kinds of expressions stand in generated rules. The expression of a token becomes a plain plan,
and a row of names becomes a chain of names, whatever is joined, factored or listed. A grammar of
such rules leaves the stack of remembered texts alone, and so none of its steps is made to be
undone.

* `Expr.IsLexical.isPlain_routine`: the plan of a token is plain.
* `Plan.chain`, `routine_row`: the plan of a row is a chain.
* **`planGrammar_eq_map`**: the routines of a grammar that leaves the stack alone.
* `routineNamed?_map`: look-up among routines with distinct names.
-/

namespace GrammarKit.Peg

/-! ## Plain plans -/

namespace Expr.IsLexical

variable {e : Expr}

theorem seqRight {r : Expr} (he : e.IsLexical) (hr : r.IsLexical) :
    (e.seqRight r).IsLexical := by
  induction e generalizing r with
  | seq a b iha ihb => exact iha he.1 (ihb he.2 hr)
  | _ => exact ⟨he, hr⟩

theorem choiceRight {r : Expr} (he : e.IsLexical) (hr : r.IsLexical) :
    (e.choiceRight r).IsLexical := by
  induction e generalizing r with
  | choice a b iha ihb => exact iha he.1 (ihb he.2 hr)
  | _ => exact ⟨he, hr⟩

theorem rightNested (he : e.IsLexical) : e.rightNested.IsLexical := by
  induction e with
  | text | range | ref => exact he
  | notAhead body =>
    obtain rfl := he
    exact rfl
  | repeated body times ih => exact ih he
  | seq left right ihl ihr => exact (ihl he.1).seqRight (ihr he.2)
  | choice left right ihl ihr => exact (ihl he.1).choiceRight (ihr he.2)
  | anyCase | peek | push | ahead => exact he.elim

end Expr.IsLexical

namespace Plan

/-- The plan, its choice factored if it is one. -/
def opened (tight : Bool) : Plan → Plan
  | choice left right => factor tight left right
  | p => p

/-- The plan with `f` applied to its parts. -/
def mapParts (f : Plan → Plan) : Plan → Plan
  | push body => push (f body)
  | ahead body => ahead (f body)
  | notAhead body => notAhead (f body)
  | optional body => optional (f body)
  | star body => star (f body)
  | undoing body => undoing (f body)
  | seq left right => seq (f left) (f right)
  | choice left right => choice (f left) (f right)
  | p => p

theorem factoredTo_succ (tight : Bool) (n : Nat) (p : Plan) :
    p.factoredTo tight (n + 1) = (p.opened tight).mapParts (factoredTo tight n) := rfl

end Plan

namespace Plan.IsPlain

variable {p q : Plan}

theorem row {ps : List Plan} (h : ∀ p ∈ ps, p.IsPlain) : (Plan.row ps).IsPlain := by
  fun_induction Plan.row ps with
  | case1 => exact trivial
  | case2 p => exact h p List.mem_cons_self
  | case3 p ps hps ih =>
    exact ⟨h p List.mem_cons_self, ih fun q hq => h q (List.mem_cons_of_mem _ hq)⟩

theorem repeated (h : p.IsPlain) (times : Times) : (p.repeated times).IsPlain := by
  have hmany (n : Nat) : ∀ q ∈ List.replicate n p, q.IsPlain :=
    fun q hq => (List.eq_of_mem_replicate hq).symm ▸ h
  have hmaybe (n : Nat) : ∀ q ∈ List.replicate n (optional p), q.IsPlain :=
    fun q hq => (List.eq_of_mem_replicate hq).symm ▸ h
  cases times with
  | optional => exact h
  | star => exact h
  | plus => exact ⟨h, h⟩
  | exactly n => exact row (hmany n)
  | atLeast n =>
    exact row (List.forall_mem_append.2 ⟨hmany n, fun q hq => List.mem_singleton.1 hq ▸ h⟩)
  | atMost n => exact row (hmaybe n)
  | between n m => exact row (List.forall_mem_append.2 ⟨hmany _, hmaybe _⟩)

theorem join (hp : p.IsPlain) (hq : q.IsPlain) : (p.join q).IsPlain := by
  rw [Plan.join.eq_def]
  split
  · exact trivial
  · exact hp.elim
  · exact ⟨hp, hq⟩

theorem joined (h : p.IsPlain) : p.joined.IsPlain := by
  induction p with
  | text | range | ref => exact h
  | notAhead body =>
    obtain rfl := h
    exact rfl
  | optional body ih => exact ih h
  | star body ih => exact ih h
  | seq left right ihl ihr => exact (ihl h.1).join (ihr h.2)
  | choice left right ihl ihr => exact ⟨ihl h.1, ihr h.2⟩
  | anyCase | peek | push | ahead | upTo | undoing => exact h.elim

theorem factor (tight : Bool) (hp : p.IsPlain) (hq : q.IsPlain) :
    (Plan.factor tight p q).IsPlain := by
  rw [Plan.factor.eq_def]
  split
  · split
    · exact ⟨hp.1, hp.2, hq.2⟩
    · exact ⟨hp, hq⟩
  · split
    · exact hp
    · exact ⟨hp, hq⟩
  · split
    · exact hp
    · exact ⟨hp, hq⟩
  · exact ⟨hp, hq⟩

theorem opened (tight : Bool) (h : p.IsPlain) : (p.opened tight).IsPlain := by
  cases p with
  | choice left right => exact factor tight h.1 h.2
  | _ => exact h

theorem factoredTo (tight : Bool) (n : Nat) (h : p.IsPlain) : (p.factoredTo tight n).IsPlain := by
  induction n generalizing p with
  | zero => exact h
  | succ n ih =>
    have hopened := h.opened tight
    rw [factoredTo_succ]
    cases hq : p.opened tight with
    | text | range | ref =>
      rw [hq] at hopened
      exact hopened
    | notAhead body =>
      rw [hq] at hopened
      obtain rfl := hopened
      cases n <;> exact rfl
    | optional body | star body =>
      rw [hq] at hopened
      exact ih hopened
    | seq left right | choice left right =>
      rw [hq] at hopened
      exact ⟨ih hopened.1, ih hopened.2⟩
    | anyCase | peek | push | ahead | upTo | undoing =>
      rw [hq] at hopened
      exact hopened.elim

theorem list (hp : p.IsPlain) (hq : q.IsPlain) : (p.list q).IsPlain := by
  rw [Plan.list.eq_def]
  split
  · split
    · exact ⟨hp.1, hp.2, hq⟩
    · exact ⟨hp, hq⟩
  · exact ⟨hp, hq⟩

theorem listed (h : p.IsPlain) : p.listed.IsPlain := by
  induction p with
  | text | range | ref => exact h
  | notAhead body =>
    obtain rfl := h
    exact rfl
  | optional body ih => exact ih h
  | star body ih => exact ih h
  | seq left right ihl ihr => exact (ihl h.1).list (ihr h.2)
  | choice left right ihl ihr => exact ⟨ihl h.1, ihr h.2⟩
  | anyCase | peek | push | ahead | upTo | undoing => exact h.elim

theorem changesStack (h : p.IsPlain) : p.changesStack [] = false := by
  induction p with
  | text | range => rfl
  | ref name => rcases h with rfl | rfl <;> rfl
  | notAhead body =>
    obtain rfl := h
    rfl
  | optional body ih => exact ih h
  | star body ih => exact ih h
  | seq left right ihl ihr => rw [Plan.changesStack, ihl h.1, ihr h.2]; rfl
  | choice left right ihl ihr => rw [Plan.changesStack, ihl h.1, ihr h.2]; rfl
  | anyCase | peek | push | ahead | upTo | undoing => exact h.elim

end Plan.IsPlain

/-- No step of a token runs up to a text, since what is looked for is a class of characters. -/
theorem Expr.IsLexical.plan_repeated {e : Expr} {stops? : Expr → Option (List String)}
    (he : e.IsLexical) (hstops : stops? (.ref "ASCII") = none) (times : Times) :
    (e.repeated times).plan stops? = (e.plan stops?).repeated times := by
  have hnone : e.unless?.bind stops? = none := by
    rw [Expr.unless?.eq_def]
    split
    · obtain rfl := he.1
      exact hstops
    · rfl
  rw [Expr.plan, hnone, ite_self]

theorem Expr.IsLexical.isPlain_plan {e : Expr} {stops? : Expr → Option (List String)}
    (he : e.IsLexical) (hstops : stops? (.ref "ASCII") = none) : (e.plan stops?).IsPlain := by
  induction e with
  | text | range | ref => exact he
  | notAhead body =>
    obtain rfl := he
    exact rfl
  | repeated body times ih =>
    have hbody : body.IsLexical := he
    rw [hbody.plan_repeated hstops]
    exact (ih hbody).repeated times
  | seq left right ihl ihr => exact ⟨ihl he.1, ihr he.2⟩
  | choice left right ihl ihr => exact ⟨ihl he.1, ihr he.2⟩
  | anyCase | peek | push | ahead => exact he.elim

/-- No rule of that name is a choice between texts. -/
theorem ruleTexts?_eq_none {rules : List Rule} {name : String}
    (h : ∀ r ∈ rules, r.name = name → ∀ f, r.body.texts? f = none) (n : Nat) :
    ruleTexts? rules n name = none := by
  cases n with
  | zero => rfl
  | succ n =>
    rw [ruleTexts?]
    cases hr : ruleNamed? rules name with
    | none => rfl
    | some r => exact h r (List.mem_of_find?_eq_some hr) (by simpa using List.find?_some hr) _

/-- The plan of a rule is made in four steps, the last of which makes lists; a property that holds of
the first plan and that joining and factoring do not give up holds in front of the last. -/
theorem Rule.exists_listed {rules : List Rule} {r : Rule} {P : Plan → Prop}
    (hascii : ∀ n, ruleTexts? rules n "ASCII" = none)
    (hplan : ∀ stops? : Expr → Option (List String), stops? (.ref "ASCII") = none →
      P (r.body.rightNested.plan stops?))
    (hjoined : ∀ p, P p → P p.joined)
    (hfactored : ∀ tight n p, P p → P (Plan.factoredTo tight n p)) :
    ∃ p, P p ∧ (r.routine rules).plan = p.listed := by
  have hfirst := hplan (if (r.kind == .atomic) = true then
    Expr.texts? (ruleTexts? rules rules.length) else fun _ => none) (by
      split
      · exact hascii _
      · rfl)
  refine ⟨_, hfactored _ _ _ ?_, rfl⟩
  by_cases hatomic : (r.kind == .atomic) = true
  · rw [if_pos hatomic]
    exact hjoined _ hfirst
  · rw [if_neg hatomic]
    exact hfirst

/-- A property that no step gives up holds of the plan of a rule. -/
theorem Rule.routine_induct {rules : List Rule} {r : Rule} {P : Plan → Prop}
    (hascii : ∀ n, ruleTexts? rules n "ASCII" = none)
    (hplan : ∀ stops? : Expr → Option (List String), stops? (.ref "ASCII") = none →
      P (r.body.rightNested.plan stops?))
    (hjoined : ∀ p, P p → P p.joined)
    (hfactored : ∀ tight n p, P p → P (Plan.factoredTo tight n p))
    (hlisted : ∀ p, P p → P p.listed) : P (r.routine rules).plan := by
  obtain ⟨p, hp, hlast⟩ := exists_listed hascii hplan hjoined hfactored
  rw [hlast]
  exact hlisted p hp

/-- **The plan of a lexical rule is plain**, where no texts stand for the class `ASCII`. -/
theorem Expr.IsLexical.isPlain_routine {rules : List Rule} {r : Rule} (h : r.body.IsLexical)
    (hascii : ∀ n, ruleTexts? rules n "ASCII" = none) : (r.routine rules).plan.IsPlain :=
  Rule.routine_induct hascii (fun _ => h.rightNested.isPlain_plan) (fun _ => Plan.IsPlain.joined)
    (fun tight n _ => Plan.IsPlain.factoredTo tight n) fun _ => Plan.IsPlain.listed

/-! ## Chains of names -/

namespace Expr

/-- A row of names, nested to the right. -/
def chain (isChoice : Bool) : String → List String → Expr
  | first, [] => ref first
  | first, name :: names => link isChoice (ref first) (chain isChoice name names)

/-- An expression linked to another one behind it. -/
def linkRight (isChoice : Bool) (left right : Expr) : Expr :=
  match isChoice with
  | false => left.seqRight right
  | true => left.choiceRight right

theorem linkRight_chain (isChoice : Bool) (first last : String) (names : List String) :
    (chain isChoice first names).linkRight isChoice (ref last) =
      chain isChoice first (names ++ [last]) := by
  induction names generalizing first with
  | nil => cases isChoice <;> rfl
  | cons name names ih =>
    have hstep : (chain isChoice first (name :: names)).linkRight isChoice (ref last) =
        link isChoice (ref first) ((chain isChoice name names).linkRight isChoice (ref last)) := by
      cases isChoice <;> rfl
    rw [hstep, ih]
    rfl

theorem rightNested_row (isChoice : Bool) (first : String) (names : List String) :
    (row isChoice first names).rightNested = chain isChoice first names := by
  induction names using List.reverseRecOn with
  | nil => rfl
  | append_singleton names last ih =>
    have hrow : row isChoice first (names ++ [last]) =
        link isChoice (row isChoice first names) (ref last) := by
      simp [row]
    have hnested : (link isChoice (row isChoice first names) (ref last)).rightNested =
        (row isChoice first names).rightNested.linkRight isChoice (ref last) := by
      cases isChoice <;> rfl
    rw [hrow, hnested, ih, linkRight_chain]

end Expr

namespace Plan

/-- The plan of a row of names. -/
def chain (isChoice : Bool) : String → List String → Plan
  | first, [] => ref first
  | first, name :: names =>
    match isChoice with
    | false => seq (ref first) (chain isChoice name names)
    | true => choice (ref first) (chain isChoice name names)

variable (isChoice : Bool) (first : String) (names : List String)

theorem plan_chain (stops? : Expr → Option (List String)) :
    (Expr.chain isChoice first names).plan stops? = chain isChoice first names := by
  induction names generalizing first with
  | nil => rfl
  | cons name names ih =>
    cases isChoice with
    | false => exact congrArg (seq (ref first)) (ih name)
    | true => exact congrArg (choice (ref first)) (ih name)

theorem factoredTo_ref (tight : Bool) (n : Nat) : (ref first).factoredTo tight n = ref first := by
  cases n <;> rfl

theorem factoredTo_chain (tight : Bool) (n : Nat) :
    (chain isChoice first names).factoredTo tight n = chain isChoice first names := by
  induction names generalizing first n with
  | nil => exact factoredTo_ref first tight n
  | cons name names ih =>
    cases n with
    | zero => rfl
    | succ n =>
      cases isChoice with
      | false =>
        have hstep : (chain false first (name :: names)).factoredTo tight (n + 1) =
            seq ((ref first).factoredTo tight n) ((chain false name names).factoredTo tight n) := rfl
        rw [hstep, factoredTo_ref, ih, chain]
      | true =>
        have hfactor : factor tight (ref first) (chain true name names) =
            choice (ref first) (chain true name names) := by
          cases names <;> rfl
        rw [chain, factoredTo_succ, opened, hfactor, mapParts, factoredTo_ref, ih]

theorem listed_chain : (chain isChoice first names).listed = chain isChoice first names := by
  induction names generalizing first with
  | nil => rfl
  | cons name names ih =>
    cases isChoice with
    | false => exact congrArg (seq (ref first)) (ih name)
    | true => exact congrArg (choice (ref first)) (ih name)

variable {isChoice first names}

theorem changesStack_chain (h : ∀ n ∈ first :: names, n ≠ "POP" ∧ n ≠ "DROP") :
    (chain isChoice first names).changesStack [] = false := by
  have href (n : String) (hn : n ≠ "POP" ∧ n ≠ "DROP") : (ref n).changesStack [] = false := by
    simp [changesStack, hn]
  induction names generalizing first with
  | nil => exact href first (h first List.mem_cons_self)
  | cons name names ih =>
    have hfirst := href first (h first List.mem_cons_self)
    have hrest := ih fun n hn => h n (List.mem_cons_of_mem _ hn)
    cases isChoice with
    | false => rw [chain, changesStack, hfirst, hrest]; rfl
    | true => rw [chain, changesStack, hfirst, hrest]; rfl

end Plan

/-- **The routine of a row** runs a chain. -/
theorem routine_row {r : Rule} {isChoice : Bool} {first : String} {names : List String}
    (hkind : r.kind ≠ .atomic) (h : r.body = .row isChoice first names) (rules : List Rule) :
    r.routine rules = ⟨r.name, r.kind, .chain isChoice first names⟩ := by
  have hatomic : (r.kind == .atomic) = false := by simpa using hkind
  simp only [Rule.routine, hatomic, Plan.factored, h, Expr.rightNested_row, Plan.plan_chain,
    Bool.false_eq_true, if_false, Plan.factoredTo_chain, Plan.listed_chain]

/-! ## Whole grammars -/

theorem Plan.undoable_of_changesStack {rules : List String} {p : Plan}
    (h : p.changesStack rules = false) : p.undoable rules = p := by
  have horUndo {q : Plan} (hq : q.changesStack rules = false) : q.orUndo rules = q := by
    rw [Plan.orUndo, hq]; rfl
  induction p with
  | push => cases h
  | ahead body ih => exact congrArg Plan.ahead (ih h)
  | notAhead body ih => exact congrArg Plan.notAhead (ih h)
  | optional body ih =>
    have hbody : body.changesStack rules = false := h
    rw [Plan.undoable, ih hbody, horUndo hbody]
  | star body ih =>
    have hbody : body.changesStack rules = false := h
    rw [Plan.undoable, ih hbody, horUndo hbody]
  | seq left right ihl ihr =>
    obtain ⟨hl, hr⟩ := Bool.or_eq_false_iff.1 h
    rw [Plan.undoable, ihl hl, ihr hr]
  | choice left right ihl ihr =>
    obtain ⟨hl, hr⟩ := Bool.or_eq_false_iff.1 h
    rw [Plan.undoable, ihl hl, ihr hr, horUndo hl, horUndo hr]
  | text | anyCase | range | ref | peek | upTo | undoing => rfl

/-- **A grammar that leaves the stack alone** has nothing to undo. -/
theorem planGrammar_eq_map {rules : List Rule}
    (h : ∀ r ∈ rules, (r.routine rules).plan.changesStack [] = false) :
    planGrammar rules = rules.map (Rule.routine rules) := by
  have hchangers (n : Nat) : stackChangers (rules.map (Rule.routine rules)) n [] = [] := by
    have hnone : (rules.map (Rule.routine rules)).filter (·.plan.changesStack []) = [] := by
      rw [List.filter_eq_nil_iff]
      intro q hq
      obtain ⟨r, hr, rfl⟩ := List.mem_map.1 hq
      simp [h r hr]
    cases n with
    | zero => rfl
    | succ n => rw [stackChangers, hnone]; rfl
  rw [planGrammar, hchangers, List.map_map]
  refine List.map_congr_left fun r hr => ?_
  rw [Function.comp_apply, Plan.undoable_of_changesStack (h r hr)]

/-- Look-up among the routines of rules with distinct names. -/
theorem routineNamed?_map {rules : List Rule} {f : Rule → Routine}
    (hf : ∀ r, (f r).name = r.name) (hnodup : (rules.map Rule.name).Nodup) {r : Rule}
    (hr : r ∈ rules) : routineNamed? (rules.map f) r.name = some (f r) := by
  induction rules with
  | nil => cases hr
  | cons q rules ih =>
    rw [List.map_cons, List.nodup_cons] at hnodup
    rw [List.map_cons, routineNamed?, List.find?_cons]
    rcases List.mem_cons.1 hr with rfl | hr
    · simp [hf]
    · have hne : (f q).name ≠ r.name := fun hname =>
        hnodup.1 (List.mem_map.2 ⟨r, hr, ((hf q).symm.trans hname).symm⟩)
      simp only [hne, decide_false]
      exact ih hnodup.2 hr

theorem routineNamed?_map_eq_none {rules : List Rule} {f : Rule → Routine}
    (hf : ∀ r, (f r).name = r.name) {name : String} (h : name ∉ rules.map Rule.name) :
    routineNamed? (rules.map f) name = none := by
  rw [routineNamed?, List.find?_eq_none]
  intro q hq hname
  obtain ⟨r, hr, rfl⟩ := List.mem_map.1 hq
  exact h (List.mem_map.2 ⟨r, hr, by simpa [hf] using hname⟩)

end GrammarKit.Peg
