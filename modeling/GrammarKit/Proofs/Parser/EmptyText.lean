import GrammarKit.Proofs.Parser.Termination

/-!
# Rules that match the empty text

The nodes that the passes over a model find are those whose rules match the empty text. A rule that
takes nothing is that of such a node, wherever it is called; and such a node never fails at the end
of a text, so that where every rule has an answer, its answer there is a match.

* `Run.HoldsAtEnd`: a run that does not fail at the end of a text, with a lemma per operator.
* `Model.HasRules.holdsAtEnd_node`: the rules of the nodes that match the empty text.
* **`nullable_iff_matches_empty`**: those are the nodes whose rules match the empty text.
-/

namespace GrammarKit

open Peg

/-! ## At the end of a text -/

/-- The run does not fail at the end of a text. -/
def Peg.Run.HoldsAtEnd (r : Run) : Prop :=
  ∀ st : State, st.rest = [] → ∀ stack attempts, r st ≠ .failed stack attempts

/-- A plain plan that may stand still does so at the end of a text. -/
theorem Peg.Plan.IsPlain.takes_nil_ne_refused {p : Plan} (hp : p.IsPlain)
    (h : p.getsOn = false) : p.takes [] ≠ .refused := by
  induction p with
  | text w =>
    have hw : w.toList = [] := by simpa [Plan.getsOn] using h
    intro hread
    rw [Plan.takes, hw, Taking.text] at hread
    cases hread
  | range | ref => cases h
  | notAhead body =>
    obtain rfl := hp
    exact fun hread => by cases hread
  | optional body ih =>
    intro hread
    rw [Plan.takes, Taking.optional] at hread
    cases hbody : body.takes [] <;> rw [hbody] at hread <;> cases hread
  | star body ih =>
    intro hread
    rw [Plan.takes, Taking.star] at hread
    cases hbody : body.takes [] with
    | read t =>
      rw [hbody] at hread
      exact Taking.loop_ne_refused _ _ _ hread
    | refused => rw [hbody] at hread; cases hread
    | stuck => rw [hbody] at hread; cases hread
  | seq left right ihl ihr =>
    obtain ⟨hl, hr⟩ := Bool.or_eq_false_iff.1 h
    intro hread
    rw [Plan.takes, Taking.seq] at hread
    cases hleft : left.takes [] with
    | read t =>
      rw [hleft, Reading.bind_read] at hread
      obtain rfl := List.suffix_nil.1 (left.leavesEnd_takes _ _ hleft)
      exact ihr hp.2 hr hread
    | refused => exact ihl hp.1 hl hleft
    | stuck => rw [hleft] at hread; cases hread
  | choice left right ihl ihr =>
    intro hread
    rw [Plan.takes, Taking.choice] at hread
    cases hleft : left.takes [] with
    | read t => rw [hleft] at hread; cases hread
    | stuck => rw [hleft] at hread; cases hread
    | refused =>
      rw [hleft, Reading.orElse_refused] at hread
      rcases Bool.and_eq_false_iff.1 h with hl | hr
      · exact ihl hp.1 hl hleft
      · exact ihr hp.2 hr hread
  | anyCase | peek | push | ahead | upTo | undoing => exact hp.elim

namespace Peg.Run.HoldsAtEnd

variable {r t gap : Run} {a : Prop}

theorem stuck : Run.HoldsAtEnd fun _ => .stuck := fun _ _ _ _ h => by cases h

theorem of_le (hle : r.Le t) (h : t.HoldsAtEnd) : r.HoldsAtEnd := by
  intro st hst stack attempts hr
  have hstays : t st = r st := hle st (by rw [hr]; exact fun h => by cases h)
  exact h st hst _ _ (hstays.trans hr)

theorem lifts {f : Taking} (h : r.Lifts f) (hf : f [] ≠ .refused) : r.HoldsAtEnd := by
  intro st hst stack attempts hr
  rw [h st, hst] at hr
  cases hread : f [] with
  | read s => rw [hread] at hr; cases hr
  | refused => exact hf hread
  | stuck => rw [hread] at hr; cases hr

theorem seq (h : r.HoldsAtEnd) (hon : r.Advances a) (ht : t.HoldsAtEnd) :
    (r.seq t).HoldsAtEnd := by
  intro st hst stack attempts hr
  rw [Run.seq, Run.undoing] at hr
  cases hfirst : r st with
  | failed stack' attempts' => exact h st hst _ _ hfirst
  | stuck => rw [hfirst] at hr; cases hr
  | matched trees mid =>
    -- Nothing is left behind the first step either.
    have hmid : mid.rest = [] := by
      have hle := (hon _ _ _ hfirst).1
      rw [hst, List.length_nil] at hle
      exact List.eq_nil_of_length_eq_zero (Nat.le_zero.1 hle)
    simp only [hfirst, Outcome.andThen] at hr
    cases hsecond : t mid with
    | failed stack' attempts' => exact ht mid hmid _ _ hsecond
    | stuck => rw [hsecond] at hr; cases hr
    | matched more last => rw [hsecond] at hr; cases hr

theorem choice (h : r.HoldsAtEnd ∨ t.HoldsAtEnd) : (r.choice t).HoldsAtEnd := by
  intro st hst stack attempts hr
  rw [Run.choice] at hr
  cases hfirst : r st with
  | matched trees mid => rw [hfirst] at hr; cases hr
  | stuck => rw [hfirst] at hr; cases hr
  | failed stack' attempts' =>
    simp only [hfirst] at hr
    rcases h with h | h
    · exact h st hst _ _ hfirst
    · exact h (st.afterFailure stack' attempts') hst _ _ hr

theorem shown (h : r.HoldsAtEnd) (ctx : Context) (name : String) :
    (Run.shown ctx name r).HoldsAtEnd := by
  intro st hst stack attempts hr
  rw [Run.shown] at hr
  cases hbody : r st with
  | failed stack' attempts' => exact h st hst _ _ hbody
  | stuck => rw [hbody] at hr; cases hr
  | matched trees next =>
    rw [hbody] at hr
    simp only at hr
    split at hr <;> cases hr

/-- A loop never fails. -/
theorem star (r : Run) : (Run.star r).HoldsAtEnd := by
  have hthen {trees : List Tree} {next : State} {again : Run}
      (hagain : ∀ st stack attempts, again st ≠ .failed stack attempts) (stack : List String)
      (attempts : Attempts) :
      (Outcome.matched trees next).andThen again ≠ .failed stack attempts := by
    intro hr
    rw [Outcome.andThen] at hr
    cases hnext : again next with
    | failed => exact hagain _ _ _ hnext
    | stuck => rw [hnext] at hr; cases hr
    | matched => rw [hnext] at hr; cases hr
  have hfrom {again : Run} (hagain : ∀ st stack attempts, again st ≠ .failed stack attempts)
      (n : Nat) : ∀ st stack attempts, Run.loopFrom r again n st ≠ .failed stack attempts := by
    induction n with
    | zero => exact fun _ _ _ hr => by cases hr
    | succ n ih =>
      intro st stack attempts hr
      rw [Run.loopFrom] at hr
      split at hr
      · cases hr
      · cases hr
      · split at hr
        · exact hthen hagain _ _ hr
        · split at hr
          · exact hthen ih _ _ hr
          · cases hr
  have hloop (n : Nat) : ∀ st stack attempts, Run.loop r n st ≠ .failed stack attempts := by
    induction n with
    | zero => exact fun _ _ _ hr => by cases hr
    | succ n ih => exact fun st => hfrom ih _ st
  exact fun st _ => hloop _ st

/-- Blanks and comments never fail to be skipped. -/
theorem gapRun {routines : List Routine} {call : Context → String → Run} {ctx : Context}
    (hblanks : (call ctx "WHITESPACE").Advances True) :
    (gapRun routines call ctx).HoldsAtEnd := by
  intro st hst stack attempts hr
  rw [Peg.gapRun] at hr
  split at hr
  · cases hr
  · simp only at hr
    split at hr
    · cases hr
    · exact star _ st hst _ _ hr
    · exact star _ st hst _ _ hr
    · exact (star _).seq hblanks.star (star _) st hst _ _ hr

end Peg.Run.HoldsAtEnd

/-! ## Rows of names at the end of a text -/

section Chain

variable {gap : Context → Run} {call : Context → String → Run} {ctx : Context} {first : String}
  {names : List String}

/-- A sequence of names holds at the end of a text if all of them do. -/
theorem Peg.Run.HoldsAtEnd.seq_chain (hgap : (gap ctx).HoldsAtEnd) (hgapOn : (gap ctx).Advances True)
    (hon : ∀ x ∈ first :: names, (call ctx x).Advances True)
    (h : ∀ x ∈ first :: names, (call ctx x).HoldsAtEnd) :
    ((Plan.chain false first names).run gap call ctx).HoldsAtEnd := by
  induction names generalizing first with
  | nil => exact h first List.mem_cons_self
  | cons name names ih =>
    obtain ⟨hfirst, hnames⟩ := List.forall_mem_cons.1 h
    obtain ⟨hfirstOn, hnamesOn⟩ := List.forall_mem_cons.1 hon
    exact hfirst.seq hfirstOn (hgap.seq hgapOn (ih hnamesOn hnames))

/-- A choice of names holds at the end of a text if one of them does. -/
theorem Peg.Run.HoldsAtEnd.choice_chain (h : ∃ x ∈ first :: names, (call ctx x).HoldsAtEnd) :
    ((Plan.chain true first names).run gap call ctx).HoldsAtEnd := by
  induction names generalizing first with
  | nil =>
    obtain ⟨x, hx, hx'⟩ := h
    rwa [List.mem_singleton.1 hx] at hx'
  | cons name names ih =>
    obtain ⟨x, hx, hx'⟩ := h
    rcases List.mem_cons.1 hx with rfl | hx
    · exact .choice (.inl hx')
    · exact .choice (.inr (ih ⟨x, hx, hx'⟩))

end Chain

/-! ## The rules of a model -/

namespace Model.HasRules

variable {m : Model} {startRule : String} (h : m.HasRules startRule) (hv : m.IsValid)
  (length : Nat)

include h hv

theorem holdsAtEnd_token {name : String} {n : Node} {pattern : Pattern}
    (hn : m.node? name = some n) (hb : n.body = .token pattern) (hnull : pattern.nullable = true)
    (ctx : Context) (depth : Nat) :
    (runRule (m.routines startRule) length depth ctx name).HoldsAtEnd := by
  obtain ⟨p, hp, hplain, -, hon⟩ := h.exists_token hv hn hb
  have hstill : p.getsOn = false := by
    rw [Bool.eq_false_iff, Ne, hon, hnull]
    exact fun h => by cases h
  -- Through few nested calls there may be no answer, but an answer is that through more of them.
  refine .of_le (runRule_le _ length (Nat.le_add_right depth 2) ctx name) ?_
  rw [h.runRule_token hn length (depth + 1) ctx hp]
  have hlifts := Plan.runRule_eq_takes hplain (m.routines startRule) length depth
    { ctx with atomicity := .atomic } fun hctx => by cases hctx
  exact .shown (.lifts hlifts (hplain.takes_nil_ne_refused hstill)) ctx name

/-- **The rule of a node that matches the empty text** does not fail at the end of a text. -/
theorem holdsAtEnd_node (ctx : Context) (depth : Nat) :
    ∀ name ∈ m.nullable, (runRule (m.routines startRule) length depth ctx name).HoldsAtEnd := by
  have hgap := h.advances_gap hv length ctx
  induction depth with
  | zero => exact fun name _ => .stuck
  | succ depth ih =>
    intro name hname
    obtain ⟨n, hn, hbody⟩ := selfNullable_nullable name hname
    cases hb : n.body with
    | token pattern =>
      rw [hb] at hbody
      exact h.holdsAtEnd_token hv length hn hb hbody ctx _
    | deduction elements =>
      rw [h.runRule_deduction hn length depth ctx hv hb]
      refine .shown ?_ ctx name
      have hall : ∀ x ∈ elements.map Element.target, x ∈ m.nullable := by
        simpa [hb, Body.nullableIn] using hbody
      have hnames : ∀ x ∈ elements.map Element.target, x ∈ m.names := by
        intro x hx
        refine has_iff.1 (hv.references hn x ?_)
        rwa [Node.references, hb]
      cases elements with
      | nil => exact .lifts (.text []) fun hread => by cases hread
      | cons e es =>
        refine .seq_chain ?_ (hgap depth) (fun x hx => ?_) fun x hx => ih x (hall x hx)
        · exact .gapRun ((h.advances_blanks hv length depth ctx).mono False.elim)
        · exact (h.advances_node hv length hgap depth x (hnames x hx)).mono fun _ => trivial
    | union members =>
      have hsome : ∃ x ∈ members, x ∈ m.nullable := by
        simpa [hb, Body.nullableIn] using hbody
      cases members with
      | nil => exact absurd rfl (hv.members hn hb)
      | cons first members =>
        rw [h.runRule_union hn length depth ctx hv hb]
        obtain ⟨x, hx, hnull⟩ := hsome
        exact .choice_chain ⟨x, hx, ih x hnull⟩

end Model.HasRules

/-! ## Nodes and rules -/

variable {m : Model} {c : GrammarConfig} {g : Grammar} {warnings : List String}

/-- **The nodes that match the empty text are those whose rules do**: the rule of such a node
matches the empty text, from some depth of nested calls on, and no other rule matches it; nor does
any other rule match anywhere without taking a character. -/
theorem nullable_iff_matches_empty (hname : '\n' ∉ m.name.toList)
    (hversion : '\n' ∉ m.version.toList) (hg : generateGrammar m c = .done g warnings)
    (hrec : g.stats.leftRecursiveRules = []) {rules : List Rule}
    (hrules : compileGrammar g.text = .ok rules) {name : String} (hnode : name ∈ m.names) :
    (name ∈ m.nullable ↔ ∃ depth trees next, ∀ more, depth ≤ more →
      runRule (planGrammar rules) 0 more {} name { rest := [], attempts := .none 0 } =
        .matched trees next) ∧
    ∀ length depth ctx st trees next,
      runRule (planGrammar rules) length depth ctx name st = .matched trees next →
        next.rest.length = st.rest.length → name ∈ m.nullable := by
  obtain ⟨startRule, hwritten, rfl⟩ := exists_isWritten hname hversion hg hrules
  rw [(generateGrammar_eq_done_left hg).2] at hrec
  have hv : m.IsValid := (generateGrammar_eq_done hg).1
  have hstill (length depth : Nat) (ctx : Context) :=
    hwritten.toHasRules.advances_node hv length (hwritten.toHasRules.advances_gap hv length ctx)
      depth name hnode
  refine ⟨⟨fun hnull => ?_, ?_⟩, fun length depth ctx st trees next hst =>
    (hstill length depth ctx _ _ _ hst).2⟩
  · have hrule : name ∈ (m.pegRules startRule).map Rule.name := by
      rw [hwritten.toHasRules.map_name_pegRules]
      exact List.mem_cons_of_mem _ (List.mem_cons_of_mem _ hnode)
    obtain ⟨depth, hanswer, hstays⟩ := Run.Settles.eventually
      (runRule_deepens (planGrammar (m.pegRules startRule)) 0 {} name)
      (hwritten.settles_rule hv hrec hrule 0 {} { rest := [], attempts := .none 0 })
    have hholds := hwritten.toHasRules.holdsAtEnd_node hv 0 {} depth name hnull
    cases hrun : runRule (planGrammar (m.pegRules startRule)) 0 depth {} name
        { rest := [], attempts := .none 0 } with
    | stuck => exact absurd hrun hanswer
    | failed stack attempts => exact absurd hrun (hholds _ rfl stack attempts)
    | matched trees next => exact ⟨depth, trees, next, fun more hmore => (hstays more hmore).trans hrun⟩
  · rintro ⟨depth, trees, next, hrun⟩
    obtain ⟨hle, hnull⟩ := hstill 0 depth {} _ _ _ (hrun depth (Nat.le_refl _))
    exact hnull (Nat.le_antisymm hle (Nat.zero_le _))

/-- Numbers with a sign that may be missing: what stands alone may be a sign. -/
def Model.numbers : Model :=
  ((((new "Numbers" "Number").insert "Sign" (.token (.regex "-?"))).insert "Digits"
    (.token (.regex "[0-9]+"))).insert "Number" (.deduction [⟨"Sign", none⟩, ⟨"Digits", some "digits"⟩])
    ).insert "Part" (.union ["Number", "Sign"])

theorem Model.isAccepted_numbers : numbers.IsAccepted {} where
  valid := by decide +kernel
  name := by decide
  version := by decide
  names := by decide +kernel
  apart := by decide +kernel
  patterns := by decide +kernel
  readable := by decide +kernel
  rules := by decide +kernel

theorem leftRecursive_numbers : Model.numbers.leftRecursive = [] := by
  refine Model.leftRecursive_eq_nil_of_rank
    (fun name => if name = "Part" then 2 else if name = "Number" then 1 else 0) ?_
  decide +kernel

/-- Nothing is part of a number, but no number. -/
theorem nullable_iff_matches_empty_numbers : ∃ g warnings rules,
    generateGrammar .numbers {} = .done g warnings ∧ g.stats.leftRecursiveRules = [] ∧
    compileGrammar g.text = .ok rules ∧
    (∃ depth trees next, ∀ more, depth ≤ more →
      runRule (planGrammar rules) 0 more {} "Part" { rest := [], attempts := .none 0 } =
        .matched trees next) ∧
    ∀ depth trees next,
      runRule (planGrammar rules) 0 depth {} "Number" { rest := [], attempts := .none 0 } ≠
        .matched trees next := by
  obtain ⟨g, hg, hsource⟩ := Model.isAccepted_numbers.exists_grammar
  have hrec : g.stats.leftRecursiveRules = [] :=
    (generateGrammar_eq_done_left hg).2.trans leftRecursive_numbers
  have hrules : compileGrammar g.text = .ok (Model.numbers.pegRules "start") := by
    rw [show g.text = _ from congrArg GrammarSource.text hsource]
    exact Model.isAccepted_numbers.compileGrammar_eq
  have hpart := nullable_iff_matches_empty (by decide) (by decide) hg hrec hrules
    (show "Part" ∈ Model.numbers.names by decide +kernel)
  have hnumber := nullable_iff_matches_empty (by decide) (by decide) hg hrec hrules
    (show "Number" ∈ Model.numbers.names by decide +kernel)
  refine ⟨g, _, _, hg, hrec, hrules, hpart.1.1 (by decide +kernel), fun depth trees next hrun => ?_⟩
  have hnull : "Number" ∈ Model.numbers.nullable := by
    refine hnumber.1.2 ⟨depth, trees, next, fun more hmore => ?_⟩
    refine (runRule_le _ 0 hmore {} "Number" _ ?_).trans hrun
    rw [hrun]
    exact fun h => by cases h
  exact absurd hnull (by decide +kernel)

end GrammarKit
