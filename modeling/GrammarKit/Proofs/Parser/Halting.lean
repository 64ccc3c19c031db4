import GrammarKit.Proofs.Model.LeftRecursion
import GrammarKit.Proofs.Parser.Routines
import GrammarKit.Proofs.Peg.Halting
import GrammarKit.Proofs.Regex.Progress

/-!
# Grammars without left recursion have an answer

Where no node of a model is left-recursive, each rule has an answer on every text: a rule either
calls others on less text, or on the same text along the first symbols of the model, and these
paths end. What is called on the same text is told by the nodes that match the empty text: no other
rule matches without taking a character.

* `Model.HasRules.advances_node`: a rule that takes nothing is that of a node that matches the empty
  text.
* `Model.HasRules.settles_gap`: blanks and comments are skipped in the end.
* **`Model.HasRules.settles_node`**: each rule has an answer.
-/

namespace GrammarKit

open Peg

/-! ## Tokens -/

theorem NodeRule.isLexical_token {name : String} {n : Node} {r : NodeRule} {pattern : Pattern}
    (hr : NodeRule.ofNode name n = .ok r) (hb : n.body = .token pattern) :
    r.rule.body.IsLexical ∧ r.rule.body.isSound = true ∧
      (r.rule.body.getsOn = true ↔ pattern.nullable = false) := by
  rw [NodeRule.ofNode, hb] at hr
  obtain ⟨e, he, hr⟩ := bind_ok hr
  cases hr
  cases pattern with
  | literal text =>
    cases he
    exact ⟨trivial, rfl, by simp [Pattern.nullable, Expr.getsOn, NodeRule.rule]⟩
  | regex source => exact ⟨lowerPattern_isLexical he, lowerPattern_isSound he, lowerPattern_getsOn he⟩

/-- The loops of all tokens get on. -/
def Model.HasSteadyTokens (m : Model) (startRule : String) : Prop :=
  ∀ r ∈ m.pegRules startRule, r.body.IsLexical → r.body.isSound = true → r.body.IsSteady

namespace Model.HasRules

variable {m : Model} {startRule : String} (h : m.HasRules startRule) (hv : m.IsValid)

include h hv

/-- **The routine of a token**: it takes a character exactly if its pattern does not match the empty
text. -/
theorem exists_token {name : String} {n : Node} {pattern : Pattern} (hn : m.node? name = some n)
    (hb : n.body = .token pattern) :
    ∃ p, routineNamed? (m.routines startRule) name = some ⟨name, .atomic, p⟩ ∧ p.IsPlain ∧
      (m.HasSteadyTokens startRule → p.IsSteady) ∧ (p.getsOn = true ↔ pattern.nullable = false) := by
  obtain ⟨r, hr⟩ := h.rules hn
  obtain ⟨hlex, hsound, hon⟩ := NodeRule.isLexical_token hr hb
  obtain ⟨p, hp, hplain, -⟩ := routine_token hr hb h.ruleTexts?_ascii
  have hplan : (r.rule.routine (m.pegRules startRule)).plan = p := by rw [hp]
  have hmem : r.rule ∈ m.pegRules startRule :=
    List.mem_cons_of_mem _ (List.mem_cons_of_mem _
      (List.mem_map_of_mem (mem_rules.2 ⟨name, n, hn, hr⟩)))
  refine ⟨p, hp ▸ h.routineNamed?_node hv hn hr, hplain, fun hsteady => ?_, ?_⟩
  · exact hplan ▸ hlex.isSteady_routine h.ruleTexts?_ascii (hsteady _ hmem hlex hsound)
  · rw [← hplan, hlex.getsOn_routine h.ruleTexts?_ascii, hon]

/-! ## What rules take -/

variable (length : Nat)

theorem advances_token {name : String} {n : Node} {pattern : Pattern} (hn : m.node? name = some n)
    (hb : n.body = .token pattern) (ctx : Context) (depth : Nat) :
    (runRule (m.routines startRule) length depth ctx name).Advances (name ∈ m.nullable) := by
  obtain ⟨p, hp, hplain, -, hon⟩ := h.exists_token hv hn hb
  -- Through few nested calls there may be no answer, but an answer is that through more of them.
  refine Run.Advances.of_le (runRule_le _ length (Nat.le_add_right depth 2) ctx name) ?_
  rw [h.runRule_token hn length (depth + 1) ctx hp]
  refine .shown (.lifts (Plan.runRule_eq_takes hplain _ length depth _ fun hctx => by cases hctx)
    p.leavesEnd_takes fun s t hread hlength => ?_) ctx name
  refine m.mem_nullable hn ?_
  by_contra hnull
  rw [hb] at hnull
  have := hplain.getsOn_takes (hon.2 (by simpa [Body.nullableIn] using hnull)) s t hread
  omega

/-- **A rule that takes nothing** is that of a node that matches the empty text. -/
theorem advances_node {ctx : Context}
    (hgap : ∀ depth, (gapRun (m.routines startRule)
      (runRule (m.routines startRule) length depth) ctx).Advances True) (depth : Nat) :
    ∀ name ∈ m.names,
      (runRule (m.routines startRule) length depth ctx name).Advances (name ∈ m.nullable) := by
  induction depth with
  | zero => exact fun name _ => .stuck _
  | succ depth ih =>
    intro name hname
    obtain ⟨n, hn⟩ := has_iff_node?.1 (has_iff.2 hname)
    have href : ∀ x ∈ n.references, x ∈ m.names := fun x hx => has_iff.1 (hv.references hn x hx)
    rw [Node.references] at href
    cases hb : n.body with
    | token pattern => exact h.advances_token hv length hn hb ctx _
    | deduction elements =>
      rw [h.runRule_deduction hn length depth ctx hv hb]
      refine .shown ?_ ctx name
      rw [hb] at href
      cases elements with
      | nil => exact .lifts (.text []) (.text []) fun s t _ _ => mem_nullable hn (by rw [hb]; rfl)
      | cons e es =>
        refine (Run.Advances.seq_chain (S := (· ∈ m.nullable)) (hgap depth)
          fun x hx => ih x (href x hx)).mono fun hall => mem_nullable hn ?_
        rw [hb]
        simpa [Body.nullableIn] using hall
    | union members =>
      cases members with
      | nil => exact absurd rfl (hv.members hn hb)
      | cons first members =>
        rw [h.runRule_union hn length depth ctx hv hb]
        rw [hb] at href
        refine (Run.Advances.choice_chain (S := (· ∈ m.nullable))
          fun x hx => ih x (href x hx)).mono fun hsome => mem_nullable hn ?_
        rw [hb]
        simpa [Body.nullableIn] using hsome

/-! ## The rule for blanks -/

/-- The rule for blanks takes a character of its own. -/
theorem exists_blanks (depth : Nat) (ctx : Context) :
    ∃ f : Taking, f.Answers ∧ f.LeavesEnd ∧ f.GetsOn ∧
      (runRule (m.routines startRule) length (depth + 2) ctx "WHITESPACE").Lifts f := by
  have hsteady : blanksPlan.IsSteady := ⟨trivial, trivial, trivial, trivial⟩
  have hplain : blanksPlan.IsPlain := ⟨trivial, trivial, trivial, trivial⟩
  have hlifts : (runRule (m.routines startRule) length (depth + 2) ctx "WHITESPACE").Lifts
      blanksPlan.takes := by
    have hbuiltin : builtinRun? length ctx "WHITESPACE" = none := rfl
    intro st
    rw [runRule, hbuiltin, h.routineNamed?_blanks hv]
    exact Plan.runRule_eq_takes hplain _ length depth { ctx with atomicity := .atomic }
      (fun hctx => by cases hctx) st
  exact ⟨blanksPlan.takes, hsteady.takes_ne_stuck hplain, blanksPlan.leavesEnd_takes,
    hplain.getsOn_takes rfl, hlifts⟩

theorem advances_blanks (depth : Nat) (ctx : Context) :
    (runRule (m.routines startRule) length depth ctx "WHITESPACE").Advances False := by
  obtain ⟨f, -, hend, hon, hlifts⟩ := h.exists_blanks hv length depth ctx
  refine .of_le (runRule_le _ length (Nat.le_add_right depth 2) ctx _)
    (.lifts hlifts hend fun s t hread heq => ?_)
  have := hon s t hread
  omega

theorem settles_blanks (ctx : Context) (st : State) :
    Run.Settles (fun depth => runRule (m.routines startRule) length depth ctx "WHITESPACE") st := by
  obtain ⟨f, hanswers, -, -, hlifts⟩ := h.exists_blanks hv length 0 ctx
  exact ⟨2, Run.Settles.lifts hlifts hanswers st⟩

end Model.HasRules

/-! ## The start rule -/

/-- Rules that every grammar has do not get stuck, but for those that no grammar may define. -/
theorem Peg.builtinRun?_ne_stuck {length : Nat} {ctx : Context} {name : String} {r : Run}
    (hname : name ∉ keywords) (h : builtinRun? length ctx name = some r) (st : State) :
    r st ≠ .stuck := by
  rw [builtinRun?.eq_def] at h
  split at h
  case h_4 =>
    cases h
    have hanswers := Taking.text_ne_stuck
    exact Run.Settles.lifts (.choice (.text ['\n']) (.choice (.text ['\r', '\n']) (.text ['\r'])))
      ((hanswers _).choice ((hanswers _).choice (hanswers _))) st
  case h_10 =>
    obtain ⟨p, -, rfl⟩ := Option.map_eq_some_iff.1 h
    exact Run.Settles.lifts (.char p) (Taking.char_ne_stuck p) st
  all_goals exact absurd (by decide) hname

/-- The start of a text, as a step. -/
def Peg.Run.begin (length : Nat) : Run := fun st =>
  if st.rest.length = length then .matched [] st else Run.fail st

/-- The ends of a text are always found, and take nothing. -/
theorem Peg.runRule_end {name : String} (hname : name = "SOI" ∨ name = "EOI")
    (routines : List Routine) (length : Nat) (ctx : Context) :
    (∀ depth, (runRule routines length depth ctx name).Advances True) ∧
      ∀ st, Run.Settles (fun depth => runRule routines length depth ctx name) st := by
  have hbegin : (Run.begin length).Advances True ∧ ∀ st, Run.begin length st ≠ .stuck := by
    refine ⟨fun st trees next hst => ?_, fun st hst => ?_⟩
    all_goals rw [Run.begin] at hst; split at hst <;> cases hst
    exact ⟨Nat.le_refl _, fun _ => trivial⟩
  have hfinish : Run.finish.Advances True ∧ ∀ st, Run.finish st ≠ .stuck := by
    refine ⟨fun st trees next hst => ?_, fun st hst => ?_⟩
    all_goals rw [Run.finish] at hst; split at hst <;> cases hst
    exact ⟨Nat.le_refl _, fun _ => trivial⟩
  rcases hname with rfl | rfl
  · refine ⟨fun depth => ?_, fun st => ⟨1, hbegin.2 st⟩⟩
    cases depth with
    | zero => exact .stuck True
    | succ depth => exact hbegin.1
  · refine ⟨fun depth => ?_, fun st => .of_succ (.shown (.const (hfinish.2 st)) ctx "EOI")⟩
    cases depth with
    | zero => exact .stuck True
    | succ depth => exact hfinish.1.shown ctx "EOI"

/-- Where the body of the start rule runs: comments take no blanks. -/
def startContext (startRule : String) (ctx : Context) : Context :=
  if startRule = "COMMENT" then { ctx with atomicity := .atomic } else ctx

namespace Model.HasRules

variable {m : Model} {startRule : String} (h : m.HasRules startRule) (hv : m.IsValid)
  (length : Nat)

include h hv

theorem runRule_start {ctx : Context} (hbuiltin : builtinRun? length ctx startRule = none)
    (depth : Nat) :
    runRule (m.routines startRule) length (depth + 1) ctx startRule =
      Run.shown ctx startRule ((Plan.sequenceOf ["SOI", m.start, "EOI"]).run
        (gapRun (m.routines startRule) (runRule (m.routines startRule) length depth))
        (runRule (m.routines startRule) length depth) (startContext startRule ctx)) := by
  funext st
  rw [runRule, hbuiltin, h.routineNamed?_start hv]
  simp only [Routine.run, Routine.isGap, startContext, h.blanks, decide_false, Bool.false_or,
    decide_eq_true_eq]

/-- The plan of the start rule stands still only where the start node does. -/
theorem advances_startPlan {ctx : Context}
    (hgap : ∀ depth, (gapRun (m.routines startRule)
      (runRule (m.routines startRule) length depth) ctx).Advances True) (depth : Nat) :
    ((Plan.sequenceOf ["SOI", m.start, "EOI"]).run
      (gapRun (m.routines startRule) (runRule (m.routines startRule) length depth))
      (runRule (m.routines startRule) length depth) ctx).Advances (m.start ∈ m.nullable) := by
  have hstart : m.start ∈ m.names := has_iff.1 hv.start
  have hends {name : String} (hname : name = "SOI" ∨ name = "EOI") :
      (runRule (m.routines startRule) length depth ctx name).Advances
        (name = m.start → m.start ∈ m.nullable) := by
    refine ((runRule_end hname (m.routines startRule) length ctx).1 depth).mono fun _ hs => ?_
    refine absurd ?_ (h.unreserved _ hstart)
    rw [← hs]
    rcases hname with rfl | rfl <;> decide
  refine (Run.Advances.seq_chain (S := fun x => x = m.start → m.start ∈ m.nullable)
    (hgap depth) fun x hx => ?_).mono fun hall => hall _ (by simp) rfl
  simp only [List.mem_cons, List.not_mem_nil, or_false] at hx
  rcases hx with rfl | rfl | rfl
  · exact hends (.inl rfl)
  · exact (h.advances_node hv length hgap depth _ hstart).mono fun hs _ => hs
  · exact hends (.inr rfl)

/-! ## What blanks and comments take -/

omit h hv in
theorem advances_tightGap {ctx : Context} (hctx : ctx.atomicity ≠ .loose) (depth : Nat) :
    (gapRun (m.routines startRule) (runRule (m.routines startRule) length depth) ctx).Advances
      True := by
  intro st trees next hst
  rw [gapRun, if_pos hctx] at hst
  cases hst
  exact ⟨Nat.le_refl _, fun _ => trivial⟩

/-- The comments of a grammar are its start rule, or there are none. -/
theorem advances_comment (ctx : Context) (depth : Nat) :
    (runRule (m.routines startRule) length depth ctx "COMMENT").Advances
      (startRule = "COMMENT" → m.start ∈ m.nullable) := by
  cases depth with
  | zero => exact .stuck _
  | succ depth =>
    have hbuiltin : builtinRun? length ctx "COMMENT" = none := rfl
    by_cases hs : startRule = "COMMENT"
    · subst hs
      rw [h.runRule_start hv length hbuiltin]
      refine .shown (.mono (h.advances_startPlan hv length (fun depth => ?_) depth) fun hn _ => hn) _ _
      exact advances_tightGap length (fun hctx => by cases hctx) depth
    · rw [runRule_eq_char hbuiltin (h.routineNamed?_comment hv hs)]
      cases unicodeClass? "COMMENT" with
      | some p => exact .lifts (.char p) (.char p) fun _ _ _ _ hs' => absurd hs' hs
      | none => exact .stuck _

theorem advances_gap (ctx : Context) (depth : Nat) :
    (gapRun (m.routines startRule) (runRule (m.routines startRule) length depth) ctx).Advances
      True :=
  .gapRun ((h.advances_blanks hv length depth ctx).mono False.elim)
    ((h.advances_comment hv length ctx depth).mono fun _ => trivial)

/-! ## Answers -/

variable (hrec : m.leftRecursive = []) (hsteady : m.HasSteadyTokens startRule)

include hrec hsteady

omit hrec in
theorem settles_token {name : String} {n : Node} {pattern : Pattern} (hn : m.node? name = some n)
    (hb : n.body = .token pattern) (ctx : Context) (st : State) :
    Run.Settles (fun depth => runRule (m.routines startRule) length depth ctx name) st := by
  obtain ⟨p, hp, hplain, hsteadyPlan, -⟩ := h.exists_token hv hn hb
  have hlifts := Plan.runRule_eq_takes hplain (m.routines startRule) length 0
    { ctx with atomicity := .atomic } fun hctx => by cases hctx
  have hbody := Run.Settles.lifts hlifts ((hsteadyPlan hsteady).takes_ne_stuck hplain)
  refine ⟨2, ?_⟩
  show runRule (m.routines startRule) length (1 + 1) ctx name st ≠ .stuck
  rw [h.runRule_token hn length 1 ctx hp]
  exact ((Run.Settles.const (hbody st)).shown ctx name).choose_spec

/-- **Each rule has an answer**, where gaps are skipped in the end. -/
theorem settles_node {ctx : Context}
    (hskip : ∀ st, Run.Settles (fun depth => gapRun (m.routines startRule)
      (runRule (m.routines startRule) length depth) ctx) st) (k : Nat) :
    ∀ name ∈ m.names, ∀ st : State, st.rest.length = k →
      Run.Settles (fun depth => runRule (m.routines startRule) length depth ctx name) st := by
  have hcalls := runRule_deepens (m.routines startRule) length
  have hgaps := gapRun_deepens (m.routines startRule) length
  have hgap := h.advances_gap hv length ctx
  -- First on less text, then on the same text along first symbols.
  induction k using Nat.strong_induction_on with
  | _ k ihText =>
    refine canStart_induct hrec fun name hname ihFirst st hst => ?_
    obtain ⟨n, hn⟩ := has_iff_node?.1 (has_iff.2 hname)
    have href : ∀ x ∈ n.references, x ∈ m.names := fun x hx => has_iff.1 (hv.references hn x hx)
    rw [Node.references] at href
    cases hb : n.body with
    | token pattern => exact h.settles_token hv length hsteady hn hb ctx st
    | deduction elements =>
      refine .of_succ ?_
      simp only [h.runRule_deduction hn length _ ctx hv hb]
      refine .shown ?_ ctx name
      rw [hb] at href
      cases elements with
      | nil => exact .const (Run.Settles.lifts (.text []) (Taking.text_ne_stuck []) st)
      | cons e es =>
        refine .seq_chain hgaps hcalls (S := (· ∈ m.nullable)) hskip hgap
          (fun depth x hx => h.advances_node hv length hgap depth x (href x hx))
          (fun x hx st' hlt => ihText _ (hst ▸ hlt) x (href x hx) st' rfl)
          fun front x back hrow hfront st' heq => ?_
        have hx : x ∈ m.names := href x (by
          show x ∈ e.target :: es.map Element.target
          rw [hrow]
          exact List.mem_append_right _ List.mem_cons_self)
        have hstart : m.CanStart x name := canStart_of_deduction hn hb hrow hfront hx
        exact ihFirst x hx hstart st' (heq.trans hst)
    | union members =>
      cases members with
      | nil => exact absurd rfl (hv.members hn hb)
      | cons first members =>
        refine .of_succ ?_
        simp only [h.runRule_union hn length _ ctx hv hb]
        rw [hb] at href
        refine .choice_chain hgaps hcalls fun x hx st' heq => ?_
        have hstart : m.CanStart x name := canStart_of_union hn hb hx (href x hx)
        exact ihFirst x (href x hx) hstart st' (heq.trans hst)

/-- The plan of the start rule has an answer as well. -/
theorem settles_startPlan {ctx : Context}
    (hskip : ∀ st, Run.Settles (fun depth => gapRun (m.routines startRule)
      (runRule (m.routines startRule) length depth) ctx) st) (st : State) :
    Run.Settles (fun depth => (Plan.sequenceOf ["SOI", m.start, "EOI"]).run
      (gapRun (m.routines startRule) (runRule (m.routines startRule) length depth))
      (runRule (m.routines startRule) length depth) ctx) st := by
  have hstart : m.start ∈ m.names := has_iff.1 hv.start
  have hends {name : String} (hname : name = "SOI" ∨ name = "EOI") :=
    runRule_end hname (m.routines startRule) length ctx
  have hparts : ∀ x ∈ ["SOI", m.start, "EOI"],
      (∀ depth, (runRule (m.routines startRule) length depth ctx x).Advances True) ∧
        ∀ st, Run.Settles (fun depth => runRule (m.routines startRule) length depth ctx x) st := by
    intro x hx
    simp only [List.mem_cons, List.not_mem_nil, or_false] at hx
    rcases hx with rfl | rfl | rfl
    · exact hends (.inl rfl)
    · have hon depth := h.advances_node hv length (h.advances_gap hv length ctx) depth _ hstart
      exact ⟨fun depth => (hon depth).mono fun _ => trivial, fun st =>
        h.settles_node hv length hrec hsteady hskip _ _ hstart st rfl⟩
    · exact hends (.inr rfl)
  refine .seq_chain (gapRun_deepens _ length) (runRule_deepens _ length) (S := fun _ => True)
    hskip (h.advances_gap hv length ctx) (fun depth x hx => (hparts x hx).1 depth)
    (fun x hx st _ => (hparts x hx).2 st) fun front x back hrow _ st _ => (hparts x ?_).2 st
  rw [hrow]
  exact List.mem_append_right _ List.mem_cons_self

variable (hcomment : startRule = "COMMENT" → m.start ∉ m.nullable)

include hcomment

/-- **Blanks and comments are skipped in the end.** -/
theorem settles_gap (ctx : Context) (st : State) :
    Run.Settles (fun depth => gapRun (m.routines startRule)
      (runRule (m.routines startRule) length depth) ctx) st := by
  have htight {ctx : Context} (hctx : ctx.atomicity ≠ .loose) (st : State) :
      Run.Settles (fun depth => gapRun (m.routines startRule)
        (runRule (m.routines startRule) length depth) ctx) st := by
    refine ⟨0, ?_⟩
    show gapRun (m.routines startRule) (runRule (m.routines startRule) length 0) ctx st ≠ .stuck
    rw [gapRun, if_pos hctx]
    exact fun h => by cases h
  by_cases hctx : ctx.atomicity ≠ .loose
  · exact htight hctx st
  have hblanks := (h.settles_blanks hv length ctx)
  have hblanksOn depth := h.advances_blanks hv length depth ctx
  have hdeepBlanks := runRule_deepens (m.routines startRule) length ctx "WHITESPACE"
  have hskip (st : State) : Run.Settles (fun depth => Run.star
      (runRule (m.routines startRule) length depth ctx "WHITESPACE")) st :=
    .star hdeepBlanks hblanksOn _ (fun st _ => hblanks st) (Nat.le_refl _)
  by_cases hs : startRule = "COMMENT"
  · subst hs
    have hgap (depth : Nat) : gapRun (m.routines "COMMENT")
        (runRule (m.routines "COMMENT") length depth) ctx =
          (Run.star (runRule (m.routines "COMMENT") length depth ctx "WHITESPACE")).seq
            (Run.star ((runRule (m.routines "COMMENT") length depth ctx "COMMENT").seq
              (Run.star (runRule (m.routines "COMMENT") length depth ctx "WHITESPACE")))) := by
      funext st
      rw [gapRun, if_neg hctx, h.routineNamed?_blanks hv, h.routineNamed?_start hv]
    have hbody (st : State) : Run.Settles (fun depth =>
        runRule (m.routines "COMMENT") length depth ctx "COMMENT") st := by
      refine .of_succ ?_
      simp only [h.runRule_start hv length (show builtinRun? length ctx "COMMENT" = none from rfl)]
      exact .shown (h.settles_startPlan hv length hrec hsteady
        (fun st => htight (fun hctx => by cases hctx) st) st) ctx _
    have hdeepStar : Run.Deepens fun depth => Run.star
        (runRule (m.routines "COMMENT") length depth ctx "WHITESPACE") :=
      fun depth => (hdeepBlanks depth).star
    have hdeep : Run.Deepens fun depth =>
        (runRule (m.routines "COMMENT") length depth ctx "COMMENT").seq
          (Run.star (runRule (m.routines "COMMENT") length depth ctx "WHITESPACE")) :=
      fun depth => (runRule_deepens _ length ctx "COMMENT" depth).seq (hdeepStar depth)
    have hon (depth : Nat) := (h.advances_comment hv length ctx depth).seq (hblanksOn depth).star
    simp only [hgap]
    refine .seq hdeepStar (fun depth => (hdeep depth).star) (hskip st) fun {_ _ mid} _ => ?_
    refine .star hdeep (fun depth => (hon depth).mono fun hn => hcomment rfl (hn.1 rfl)) _
      (fun st _ => ?_) (Nat.le_refl _)
    exact .seq (runRule_deepens _ length ctx "COMMENT") hdeepStar (hbody st) fun _ => hskip _
  · have hgap (depth : Nat) : gapRun (m.routines startRule)
        (runRule (m.routines startRule) length depth) ctx =
          Run.star (runRule (m.routines startRule) length depth ctx "WHITESPACE") := by
      funext st
      rw [gapRun, if_neg hctx, h.routineNamed?_blanks hv, h.routineNamed?_comment hv hs]
    simp only [hgap]
    exact hskip st

/-- **Every rule of the grammar has an answer** on every text. -/
theorem settles_rule (hkeyword : startRule ∉ keywords) {name : String}
    (hname : name ∈ (m.pegRules startRule).map Rule.name) (ctx : Context) (st : State) :
    Run.Settles (fun depth => runRule (m.routines startRule) length depth ctx name) st := by
  have hskip := h.settles_gap hv length hrec hsteady hcomment
  rw [h.map_name_pegRules] at hname
  rcases List.mem_cons.1 hname with rfl | hname
  · exact h.settles_blanks hv length ctx st
  · rcases List.mem_cons.1 hname with rfl | hname
    · cases hbuiltin : builtinRun? length ctx name with
      | none =>
        refine .of_succ ?_
        simp only [h.runRule_start hv length hbuiltin]
        exact .shown (h.settles_startPlan hv length hrec hsteady (hskip _) st) ctx _
      | some r =>
        refine ⟨1, ?_⟩
        show runRule (m.routines name) length (0 + 1) ctx name st ≠ .stuck
        rw [runRule, hbuiltin]
        exact builtinRun?_ne_stuck hkeyword hbuiltin st
    · exact h.settles_node hv length hrec hsteady (hskip ctx) _ name hname st rfl

end Model.HasRules

end GrammarKit
