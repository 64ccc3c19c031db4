import GrammarKit.Proofs.Parser.Tokens
import GrammarKit.Proofs.Regex.Sound

/-!
# Tokens match nothing else

A rule that is written for a pattern with choices may miss matches of the pattern, since it does not
come back to a choice. What it does match is a match.

* **`full_match_of_matched`**: the text that a rule for a pattern takes is in the language of the
  pattern.
-/

namespace GrammarKit

open Peg Regex Text

/-- The only rule of a grammar, if it is atomic, takes a text that its expression can take alone. -/
theorem Peg.Rule.exists_yields_of_matched {r : Rule} (hkind : r.kind = .atomic)
    (hfree : r.name ∉ reservedRuleNames) (hlex : r.body.IsLexical) {input : List Char}
    {trees : List Tree} {st : State}
    (hst : parseWith (planGrammar [r]) r.name input = .matched trees st) :
    ∃ w, input = w ++ st.rest ∧ (r.body.plan fun _ => none).Yields w [] := by
  have hascii := Rule.ruleTexts?_ascii_alone hfree
  have hread := (Rule.parseWith_atomic_matched_iff hkind hfree (hlex.isPlain_routine hascii)
    input).1 ⟨trees, st, hst, rfl⟩
  obtain ⟨w, hw⟩ := Plan.leavesEnd_takes _ _ _ hread
  have hyields := hlex.yields_of_routine hascii hread
  rw [← hw] at hyields
  exact ⟨w, hw.symm, Plan.Yields.of_append (t := []) (hlex.isPlain_plan rfl) hyields⟩

/-- **A rule that is written for a pattern is sound**: what it takes of an ASCII text, read and run as
the only rule of a grammar, is matched by the pattern from its front to its end. -/
theorem full_match_of_matched {pattern : String} {e : Expr} (he : lowerPattern pattern = .ok e)
    {name : String} (hname : IsRuleName name) (hfree : name ∉ reservedRuleNames)
    (holds : Anchor → List UInt8 → Bool) {input : List Char} (hinput : IsAscii input) :
    ∃ x ds, Regex.parse pattern = .ok x ∧
      readGrammar (Rule.text ⟨name, .atomic, e⟩ ++ ['\n']) = .ok ds ∧
      ∀ trees st, parseWith (planGrammar (ds.map Definition.rule)) name input =
          .matched trees st → ∃ w, input = w ++ st.rest ∧ x.Matches holds (encode w) [] := by
  obtain ⟨x, hx, hlower⟩ := lowerPattern_eq_ok he
  have hlex : e.IsLexical := lower_isLexical x hlower
  obtain ⟨ds, hds, hrules⟩ := hlex.exists_rule hname
  refine ⟨x, ds, hx, hds, fun trees st hst => ?_⟩
  rw [hrules] at hst
  obtain ⟨w, hw, hyields⟩ :=
    Rule.exists_yields_of_matched (r := ⟨name, .atomic, e⟩) rfl hfree hlex hst
  have hascii : IsAscii w := fun c hc => hinput c (hw ▸ List.mem_append_left _ hc)
  exact ⟨w, hw, matches_of_yields holds x (isNormal_parse hx) hlower hascii hyields⟩

/-- The rule for a pattern with a choice. -/
def lettersRule : Rule := ⟨"letters", .atomic, .seq (.choice (.text "a") (.text "ab")) (.text "c")⟩

/-- The rule for a choice matches a text that starts with its first branch, and nothing else. -/
theorem full_match_of_matched_letters : lowerPattern "(?:a|ab)c" = .ok lettersRule.body ∧
    ∃ x ds trees st, Regex.parse "(?:a|ab)c" = .ok x ∧
      readGrammar (lettersRule.text ++ ['\n']) = .ok ds ∧
      parseWith (planGrammar (ds.map Definition.rule)) "letters" "acd".toList =
        .matched trees st ∧
      ∃ w, "acd".toList = w ++ st.rest ∧ x.Matches (fun _ _ => false) (encode w) [] := by
  have he : lowerPattern "(?:a|ab)c" = .ok lettersRule.body := by decide +kernel
  have hname : IsRuleName "letters" := ⟨⟨'l', "etters".toList, rfl, rfl, by decide⟩, rfl⟩
  have hfree : "letters" ∉ reservedRuleNames := by decide
  have hlex : lettersRule.body.IsLexical := ⟨⟨trivial, trivial⟩, trivial⟩
  obtain ⟨x, ds, hx, hds, hfull⟩ := full_match_of_matched he hname hfree (fun _ _ => false)
    (show IsAscii "acd".toList by decide)
  obtain ⟨ds', hds', hrules⟩ := hlex.exists_rule hname
  obtain rfl : ds' = ds := Except.ok.inj (hds'.symm.trans hds)
  have hplain := hlex.isPlain_routine (Rule.ruleTexts?_ascii_alone (r := lettersRule) hfree)
  obtain ⟨trees, st, hst, -⟩ :=
    (Rule.parseWith_atomic_matched_iff rfl hfree hplain "acd".toList (t := ['d'])).2 (by rfl)
  have hmatched := (congrArg (fun rs => parseWith (planGrammar rs) "letters" _) hrules).trans hst
  exact ⟨he, x, ds', trees, st, hx, hds, hmatched, hfull trees st hmatched⟩

end GrammarKit
