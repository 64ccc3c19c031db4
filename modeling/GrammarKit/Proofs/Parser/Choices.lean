import GrammarKit.Proofs.Parser.Patterns

/-!
# Tokens with choices

A rule that is written for a pattern never comes back to a choice. It is exact nevertheless if each
branch settles its choice against the later ones, which can be read off the pattern; where a branch
leaves the choice open, the rule may miss a match.

* **`matches_iff_decided_pattern_matches`**: a rule that is written for a pattern whose choices are
  settled matches an ASCII text exactly if the pattern does, and takes the match that comes first.
* `exists_match_not_matched`: a pattern with a match that its rule misses.
-/

namespace GrammarKit

open Peg Regex Text

/-- **A rule that is written for a pattern whose choices are settled is exact**: read and run as the
only rule of a grammar, it matches the front of an ASCII text exactly if the pattern has a match
there, and it leaves what the match that comes first leaves. It always has an answer. -/
theorem matches_iff_decided_pattern_matches {pattern : String} {x : Regex} {e : Expr}
    (hx : Regex.parse pattern = .ok x) (hdecides : x.decidesChoices .empty = true)
    (he : lowerPattern pattern = .ok e) {name : String} (hname : IsRuleName name)
    (hfree : name ∉ reservedRuleNames) (holds : Anchor → List UInt8 → Bool) {input : List Char}
    (hinput : IsAscii input) :
    ∃ ds, readGrammar (Rule.text ⟨name, .atomic, e⟩ ++ ['\n']) = .ok ds ∧
      ((∃ trees st, parseWith (planGrammar (ds.map Definition.rule)) name input =
          .matched trees st) ↔ ∃ rest, x.Matches holds (encode input) rest) ∧
      (∀ trees st, parseWith (planGrammar (ds.map Definition.rule)) name input =
          .matched trees st → st.rest <:+ input ∧
            x.first? holds (encode input) = some (encode st.rest)) ∧
      parseWith (planGrammar (ds.map Definition.rule)) name input ≠ .stuck := by
  obtain ⟨y, hy, hlower⟩ := lowerPattern_eq_ok he
  obtain rfl : y = x := Except.ok.inj (hy.symm.trans hx)
  have hnormal := isNormal_parse hx
  have h : Lowers .empty [y] [e] := lowers_of_decidesChoices y hnormal hdecides hlower
  exact h.exists_exact_rule hnormal hname hfree holds hinput

/-- A number, in one of three notations, and a unit that may be missing, the longer one first. -/
def sizePattern : String := "(?:0x|0b|[1-9])[0-9]*(?:px|p)?;"

/-- Its rule. -/
def sizeRule : Rule := ⟨"size", .atomic, .seq (.seq (.seq
  (.choice (.choice (.text "0x") (.text "0b")) (.range '1' '9')) (.repeated (.range '0' '9') .star))
  (.repeated (.choice (.text "px") (.text "p")) .optional)) (.text ";")⟩

/-- All choices of the pattern are settled, so its rule matches. -/
theorem matches_iff_decided_pattern_matches_size :
    ∃ x ds, Regex.parse sizePattern = .ok x ∧ x.decidesChoices .empty = true ∧
      lowerPattern sizePattern = .ok sizeRule.body ∧
      readGrammar (sizeRule.text ++ ['\n']) = .ok ds ∧
      ∃ trees st, parseWith (planGrammar (ds.map Definition.rule)) "size" "0b10p;".toList =
        .matched trees st ∧ encode st.rest = [] := by
  have hparsed : (Regex.parse sizePattern).toOption.map (fun x =>
      (x.decidesChoices .empty, x.first? (fun _ _ => false) (encode "0b10p;".toList))) =
      some (true, some []) := by decide +kernel
  obtain ⟨x, hx⟩ : ∃ x, Regex.parse sizePattern = .ok x := by
    cases hx : Regex.parse sizePattern with
    | error cause => rw [hx] at hparsed; cases hparsed
    | ok x => exact ⟨x, rfl⟩
  rw [hx] at hparsed
  obtain ⟨hdecides, hleft⟩ := Prod.mk.inj (Option.some.inj hparsed)
  have he : lowerPattern sizePattern = .ok sizeRule.body := by decide +kernel
  have hname : IsRuleName "size" := ⟨⟨'s', "ize".toList, rfl, rfl, by decide⟩, rfl⟩
  obtain ⟨ds, hds, hmatched, hfirst, -⟩ := matches_iff_decided_pattern_matches hx hdecides he hname
    (by decide) (fun _ _ => false) (show IsAscii "0b10p;".toList by decide)
  obtain ⟨trees, st, hst⟩ := hmatched.2 <| by
    by_contra hno
    have hnone := (first?_eq_none_iff _ (isNormal_parse hx)).2 (not_exists.1 hno)
    rw [hleft] at hnone
    cases hnone
  refine ⟨x, ds, hx, hdecides, he, hds, trees, st, hst, ?_⟩
  have hrest := (hfirst trees st hst).2
  rw [hleft] at hrest
  exact (Option.some.inj hrest).symm

/-- **A choice that is left open** may be settled wrongly: the pattern matches all of the text, but
its rule, which keeps to the shorter branch, does not match there. -/
theorem exists_match_not_matched :
    ∃ x ds, Regex.parse "(a|ab)c" = .ok x ∧ lowerPattern "(a|ab)c" = .ok lettersRule.body ∧
      readGrammar (lettersRule.text ++ ['\n']) = .ok ds ∧
      x.first? (fun _ _ => false) (encode "abc".toList) = some [] ∧
      ∀ trees st, parseWith (planGrammar (ds.map Definition.rule)) "letters" "abc".toList ≠
        .matched trees st := by
  have hname : IsRuleName "letters" := ⟨⟨'l', "etters".toList, rfl, rfl, by decide⟩, rfl⟩
  have hfree : "letters" ∉ reservedRuleNames := by decide
  have hlex : lettersRule.body.IsLexical := ⟨⟨trivial, trivial⟩, trivial⟩
  obtain ⟨ds, hds, hrules⟩ := hlex.exists_rule hname
  refine ⟨_, ds, rfl, by decide +kernel, hds, by decide +kernel, fun trees st hst => ?_⟩
  rw [hrules] at hst
  have hplain := hlex.isPlain_routine (Rule.ruleTexts?_ascii_alone (r := lettersRule) hfree)
  have hread := (Rule.parseWith_atomic_matched_iff rfl hfree hplain "abc".toList).1
    ⟨trees, st, hst, rfl⟩
  have hrefused : (lettersRule.routine [lettersRule]).plan.takes "abc".toList = .refused := by rfl
  rw [hrefused] at hread
  cases hread

end GrammarKit
