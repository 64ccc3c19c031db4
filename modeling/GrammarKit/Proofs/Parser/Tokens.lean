import GrammarKit.Proofs.Parser.Routines
import GrammarKit.Proofs.Regex.Exact

/-!
# Tokens match what their patterns match

* `first?_eq_resume`: what the plan of a token takes of an ASCII text is what the search for its
  pattern finds.
* `Rule.IsSimple.readGrammar_text`: a rule that is written alone is read.
* **`matches_iff_pattern_matches`**: a rule that is written for a pattern without a choice matches an
  ASCII text exactly if the pattern does, and takes the match that comes first.
-/

namespace GrammarKit

open Peg Regex Text

/-! ## Plans of patterns -/

namespace Regex

variable {rules : List Rule} {r : Rule} {x : Regex}
  (hascii : ∀ n, ruleTexts? rules n "ASCII" = none) (h : Lowers .empty [x] [r.body])

include hascii h

/-- **The plan of a pattern takes what the search finds.** -/
theorem Lowers.first?_eq_resume (holds : Anchor → List UInt8 → Bool) {s : List Char}
    (hs : IsAscii s) :
    x.first? holds (encode s) = resume ((r.routine rules).plan.takes s) some := by
  have hlex : r.body.IsLexical := h.isLexical _ List.mem_cons_self
  have hsteady : r.body.IsSteady := h.isSteady _ List.mem_cons_self
  rw [hlex.agrees_routine hascii hsteady h.spans.isApart s hs]
  exact h.mirrors holds some (.inl fun _ _ => Option.some_ne_none _) s hs

theorem Lowers.routine_ne_stuck (s : List Char) : (r.routine rules).plan.takes s ≠ .stuck := by
  have hlex : r.body.IsLexical := h.isLexical _ List.mem_cons_self
  have hsteady : r.body.IsSteady := h.isSteady _ List.mem_cons_self
  exact (hlex.isSteady_routine hascii hsteady).takes_ne_stuck (hlex.isPlain_routine hascii) s

end Regex

/-! ## A rule alone -/

namespace Peg.Rule

variable {r : Rule}

/-- **A rule that is written alone is read.** -/
theorem IsSimple.readGrammar_text (h : r.IsSimple) (hc : r.isClean = true) :
    ∃ ds, readGrammar (r.text ++ ['\n']) = .ok ds ∧ ds.map Definition.rule = [r] := by
  have hjoin : Paragraph.join [⟨[], r.text, r⟩] = r.text := by simp [Paragraph.join]
  have hlen : r.body.render.toList.length ≤ (r.text ++ ['\n']).length + 1 := by
    simp only [text, List.length_append]
    omega
  obtain ⟨ds, hds, hwrites⟩ := Paragraph.readGrammar_join
    (List.forall_mem_singleton.2 (h.isApart fun _ => rfl))
    (List.forall_mem_singleton.2 (h.reads hc (by rwa [hjoin]) []))
  rw [hjoin] at hds
  refine ⟨ds, hds, ?_⟩
  rw [List.map_singleton, List.forall₂_cons_right_iff] at hwrites
  obtain ⟨d, es, hd, hes, rfl⟩ := hwrites
  rw [List.forall₂_nil_right_iff.1 hes, List.map_singleton, hd.rule]

variable (hkind : r.kind = .atomic) (hfree : r.name ∉ reservedRuleNames)
  (hplain : (r.routine [r]).plan.IsPlain) (input : List Char)

include hkind hfree hplain

/-- **The only rule of a grammar** takes what its plan takes, if it is atomic. -/
theorem parseWith_atomic :
    parseWith (planGrammar [r]) r.name input =
      Run.shown {} r.name (fun st => ((r.routine [r]).plan.takes st.rest).outcome st)
        { rest := input, attempts := .none input.length } := by
  have hroutines : planGrammar [r] = [r.routine [r]] :=
    planGrammar_eq_map (List.forall_mem_singleton.2 hplain.changesStack)
  obtain ⟨depth, hdepth⟩ : ∃ d, enoughDepth [r.routine [r]] input = d + 2 := by
    refine Nat.exists_eq_add_of_le' ?_
    calc 2 = 1 * 2 * 1 := rfl
      _ ≤ _ := Nat.mul_le_mul (Nat.mul_le_mul (by simp) (Nat.le_add_left _ _)) (Nat.le_add_left _ _)
  have hnamed : routineNamed? [r.routine [r]] r.name = some (r.routine [r]) :=
    List.find?_cons_of_pos (decide_eq_true rfl)
  have hbody := Plan.runRule_eq_takes hplain [r.routine [r]] input.length depth
    { atomicity := .atomic } fun h => by cases h
  have hkind : (r.routine [r]).kind = .atomic := hkind
  rw [parseWith, hroutines, hdepth, runRule, builtinRun?_eq_none hfree, hnamed]
  simp only [Routine.run, hkind]
  exact congrArg (Run.shown {} r.name · _) (funext hbody)

theorem parseWith_atomic_matched_iff {t : List Char} :
    (∃ trees st, parseWith (planGrammar [r]) r.name input = .matched trees st ∧ st.rest = t) ↔
      (r.routine [r]).plan.takes input = .read t := by
  rw [parseWith_atomic hkind hfree hplain, Run.shown]
  cases (r.routine [r]).plan.takes input with
  | read u => simp [Reading.outcome, Context.showsTrees]
  | refused => simp [Reading.outcome]
  | stuck => simp [Reading.outcome]

theorem parseWith_atomic_ne_stuck (h : (r.routine [r]).plan.takes input ≠ .stuck) :
    parseWith (planGrammar [r]) r.name input ≠ .stuck := by
  rw [parseWith_atomic hkind hfree hplain, Run.shown]
  cases hread : (r.routine [r]).plan.takes input with
  | read u => simp [Reading.outcome, Context.showsTrees]
  | refused => simp [Reading.outcome]
  | stuck => exact absurd hread h

end Peg.Rule

/-- **A rule that is written for a lexical expression is read.** -/
theorem Peg.Expr.IsLexical.exists_rule {e : Expr} (h : e.IsLexical) {name : String}
    (hname : IsRuleName name) :
    ∃ ds, readGrammar (Rule.text ⟨name, .atomic, e⟩ ++ ['\n']) = .ok ds ∧
      ds.map Definition.rule = [⟨name, .atomic, e⟩] := by
  have hclean : Rule.isClean ⟨name, .atomic, e⟩ = true := by
    refine List.all_eq_true.2 (List.forall_mem_cons.2 ⟨by simp [hname.2], fun n hn => ?_⟩)
    simp [(h.readable.names n hn).2]
  exact Rule.IsSimple.readGrammar_text ⟨hname.1, .inl h⟩ hclean

/-! ## Patterns -/

namespace Peg.Rule

variable {r : Rule} {x : Regex} (hkind : r.kind = .atomic) (hfree : r.name ∉ reservedRuleNames)
  (hnormal : x.IsNormal) (h : Lowers .empty [x] [r.body])
  (holds : Anchor → List UInt8 → Bool) {input : List Char} (hinput : IsAscii input)

include hfree in
theorem ruleTexts?_ascii_alone (n : Nat) : ruleTexts? [r] n "ASCII" = none := by
  refine ruleTexts?_eq_none (List.forall_mem_singleton.2 fun hname => ?_) n
  exact absurd (by rw [hname]; decide) hfree

include hfree h in
theorem isPlain_routine_alone : (r.routine [r]).plan.IsPlain := by
  have hlex : r.body.IsLexical := h.isLexical _ List.mem_cons_self
  exact hlex.isPlain_routine (ruleTexts?_ascii_alone hfree)

include hkind hfree h hinput

/-- What the rule leaves is what the match that comes first leaves. -/
theorem first?_of_matched {trees : List Tree} {st : State}
    (hst : parseWith (planGrammar [r]) r.name input = .matched trees st) :
    st.rest <:+ input ∧ x.first? holds (encode input) = some (encode st.rest) := by
  have hplain := isPlain_routine_alone hfree h
  have hread := (parseWith_atomic_matched_iff hkind hfree hplain input).1 ⟨trees, st, hst, rfl⟩
  have hfirst := h.first?_eq_resume (ruleTexts?_ascii_alone hfree) holds hinput
  rw [hread] at hfirst
  exact ⟨Plan.leavesEnd_takes _ _ _ hread, hfirst⟩

include hnormal in
/-- The rule matches where the expression does. -/
theorem matched_iff_matches :
    (∃ trees st, parseWith (planGrammar [r]) r.name input = .matched trees st) ↔
      ∃ rest, x.Matches holds (encode input) rest := by
  have hplain := isPlain_routine_alone hfree h
  have hfirst := h.first?_eq_resume (ruleTexts?_ascii_alone hfree) holds hinput
  constructor
  · rintro ⟨trees, st, hst⟩
    by_contra hno
    have hnone := (first?_eq_none_iff holds hnormal).2 (not_exists.1 hno)
    have hsome := (first?_of_matched hkind hfree h holds hinput hst).2
    rw [hnone] at hsome
    cases hsome
  · rintro ⟨rest, hrest⟩
    cases hread : (r.routine [r]).plan.takes input with
    | read t =>
      obtain ⟨trees, st, hst, -⟩ :=
        (parseWith_atomic_matched_iff hkind hfree hplain input).2 hread
      exact ⟨trees, st, hst⟩
    | refused =>
      rw [hread] at hfirst
      exact absurd hrest ((first?_eq_none_iff holds hnormal).1 hfirst rest)
    | stuck =>
      rw [hread] at hfirst
      exact absurd hrest ((first?_eq_none_iff holds hnormal).1 hfirst rest)

end Peg.Rule

/-- What is lowered is exact: the rule is read, it matches an ASCII text exactly if the expression
does, and it leaves what the match that comes first leaves. -/
theorem Regex.Lowers.exists_exact_rule {x : Regex} {e : Expr} (h : Lowers .empty [x] [e])
    (hnormal : x.IsNormal) {name : String} (hname : IsRuleName name)
    (hfree : name ∉ reservedRuleNames) (holds : Anchor → List UInt8 → Bool) {input : List Char}
    (hinput : IsAscii input) :
    ∃ ds, readGrammar (Rule.text ⟨name, .atomic, e⟩ ++ ['\n']) = .ok ds ∧
      ((∃ trees st, parseWith (planGrammar (ds.map Definition.rule)) name input =
          .matched trees st) ↔ ∃ rest, x.Matches holds (encode input) rest) ∧
      (∀ trees st, parseWith (planGrammar (ds.map Definition.rule)) name input =
          .matched trees st → st.rest <:+ input ∧
            x.first? holds (encode input) = some (encode st.rest)) ∧
      parseWith (planGrammar (ds.map Definition.rule)) name input ≠ .stuck := by
  have hlex : e.IsLexical := h.isLexical e List.mem_cons_self
  obtain ⟨ds, hds, hrules⟩ := hlex.exists_rule hname
  refine ⟨ds, hds, ?_⟩
  rw [hrules]
  refine ⟨Rule.matched_iff_matches rfl hfree hnormal h holds hinput,
    fun trees st hst => Rule.first?_of_matched rfl hfree h holds hinput hst, ?_⟩
  exact Rule.parseWith_atomic_ne_stuck rfl hfree (Rule.isPlain_routine_alone hfree h) input
    (h.routine_ne_stuck (Rule.ruleTexts?_ascii_alone hfree) input)

/-- **A rule that is written for a pattern without a choice is exact**: read and run as the only
rule of a grammar, it matches the front of an ASCII text exactly if the pattern has a match there,
and it leaves what the match that comes first leaves. It always has an answer. -/
theorem matches_iff_pattern_matches {pattern : String} {x : Regex} {e : Expr}
    (hx : Regex.parse pattern = .ok x) (hchoice : x.HasNoChoice)
    (he : lowerPattern pattern = .ok e) {name : String} (hname : IsRuleName name)
    (hfree : name ∉ reservedRuleNames) (holds : Anchor → List UInt8 → Bool) {input : List Char}
    (hinput : IsAscii input) :
    ∃ ds, readGrammar (Rule.text ⟨name, .atomic, e⟩ ++ ['\n']) = .ok ds ∧
      ((∃ trees st, parseWith (planGrammar (ds.map Definition.rule)) name input =
          .matched trees st) ↔ ∃ rest, x.Matches holds (encode input) rest) ∧
      (∀ trees st, parseWith (planGrammar (ds.map Definition.rule)) name input =
          .matched trees st → st.rest <:+ input ∧
            x.first? holds (encode input) = some (encode st.rest)) ∧
      parseWith (planGrammar (ds.map Definition.rule)) name input ≠ .stuck := by
  obtain ⟨y, hy, hlower⟩ := lowerPattern_eq_ok he
  obtain rfl : y = x := Except.ok.inj (hy.symm.trans hx)
  have hnormal := isNormal_parse hx
  have h : Lowers .empty [y] [e] := lowers_of_lower y hnormal hchoice hlower
  exact h.exists_exact_rule hnormal hname hfree holds hinput

/-- Digits, two letters that may be missing, and another one, in front of an exclamation mark. -/
theorem matches_iff_pattern_matches_digits :
    ∃ x e ds, Regex.parse "[0-9]+(?:ab)?c" = .ok x ∧ x.HasNoChoice ∧
      lowerPattern "[0-9]+(?:ab)?c" = .ok e ∧
      readGrammar (Rule.text ⟨"number", .atomic, e⟩ ++ ['\n']) = .ok ds ∧
      ∃ trees st, parseWith (planGrammar (ds.map Definition.rule)) "number" "12abc!".toList =
        .matched trees st ∧ encode st.rest = encode ['!'] := by
  have hx : Regex.parse "[0-9]+(?:ab)?c" = .ok (.concat
      [.repetition (.charClass (.bytes [(48, 57)])) 1 none true,
        .repetition (.literal [97, 98]) 0 (some 1) true, .literal [99]]) := rfl
  have he : lowerPattern "[0-9]+(?:ab)?c" = .ok (.seq (.seq (.repeated (.range '0' '9') .plus)
      (.repeated (.text "ab") .optional)) (.text "c")) := by decide +kernel
  have hname : IsRuleName "number" := ⟨⟨'n', "umber".toList, rfl, rfl, by decide⟩, rfl⟩
  have hinput : IsAscii "12abc!".toList := by decide
  obtain ⟨ds, hds, hmatched, hfirst, -⟩ := matches_iff_pattern_matches hx
    ⟨trivial, trivial, trivial, trivial⟩ he hname (by decide)
    (fun _ _ => false) hinput
  have hleft : first? (fun _ _ => false) (.concat
      [.repetition (.charClass (.bytes [(48, 57)])) 1 none true,
        .repetition (.literal [97, 98]) 0 (some 1) true, .literal [99]])
      (encode "12abc!".toList) = some (encode ['!']) := by decide
  obtain ⟨trees, st, hst⟩ := hmatched.2 <| by
    by_contra hno
    have hnone := (first?_eq_none_iff _ (isNormal_parse hx)).2 (not_exists.1 hno)
    rw [hleft] at hnone
    cases hnone
  refine ⟨_, _, ds, hx, ⟨trivial, trivial, trivial, trivial⟩, he, hds, trees, st, hst, ?_⟩
  have hrest := (hfirst trees st hst).2
  rw [hleft] at hrest
  exact (Option.some.inj hrest).symm

end GrammarKit
