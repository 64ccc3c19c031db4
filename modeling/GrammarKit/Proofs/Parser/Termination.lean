import GrammarKit.Proofs.Grammar.StartRule
import GrammarKit.Proofs.Parser.Checks

/-!
# Grammars without left recursion

A grammar that is generated without left-recursive rules and accepted gives an answer for every
rule, on every text and at every place.

* `generateGrammar_eq_done_left`: what a generated grammar tells of left recursion.
* **`runRule_answers`**: every rule matches or fails, through a bounded number of nested calls.
-/

namespace GrammarKit

open Peg

variable {m : Model} {c : GrammarConfig} {g : Grammar} {warnings : List String}

/-- The start rule of a grammar is an identifier, and the grammar lists the left-recursive rules. -/
theorem generateGrammar_eq_done_left (h : generateGrammar m c = .done g warnings) :
    Code.isIdentifier c.startRule = true ∧ g.stats.leftRecursiveRules = m.leftRecursive := by
  rw [generateGrammar] at h
  split at h
  · cases h
  · split at h
    · rename_i hrules
      cases h
      rw [Model.ruleFaults, List.append_eq_nil_iff, List.append_eq_nil_iff, startRuleFaults] at hrules
      refine ⟨?_, rfl⟩
      have hstart := hrules.1.1
      split at hstart
      · cases hstart
      · rename_i hor
        simpa using (not_or.1 hor).1
    · cases h

/-- The compiled rules are those that were written for the model, for some name of the start
rule. -/
theorem exists_isWritten (hname : '\n' ∉ m.name.toList) (hversion : '\n' ∉ m.version.toList)
    (hg : generateGrammar m c = .done g warnings) {rules : List Rule}
    (hrules : compileGrammar g.text = .ok rules) :
    ∃ startRule, m.IsWritten startRule ∧ rules = m.pegRules startRule := by
  obtain ⟨hv, hnamed, hsource⟩ := generateGrammar_eq_done hg
  obtain ⟨ds, hds, hfaults, rfl⟩ := compileGrammar_eq_ok hrules
  rw [show g.text = grammarText m c m.rules from congrArg GrammarSource.text hsource] at hds
  obtain ⟨startRule, hwrites⟩ := Model.exists_writes_of_readGrammar hv hname hversion
    (generateGrammar_eq_done_left hg).1 hds
  exact ⟨startRule, hnamed.isWritten hv hwrites hfaults, map_rule_of_writes hwrites⟩

/-- **Every rule matches or fails**, wherever it is called: from some depth of nested calls on, its
answer is always the same. -/
theorem runRule_answers (hname : '\n' ∉ m.name.toList) (hversion : '\n' ∉ m.version.toList)
    (hg : generateGrammar m c = .done g warnings) (hrec : g.stats.leftRecursiveRules = [])
    {rules : List Rule} (hrules : compileGrammar g.text = .ok rules) {rule : String}
    (hrule : rule ∈ rules.map Rule.name) (length : Nat) (ctx : Context) (st : State) :
    ∃ depth answer, answer ≠ .stuck ∧
      ∀ more, depth ≤ more → runRule (planGrammar rules) length more ctx rule st = answer := by
  obtain ⟨startRule, hwritten, rfl⟩ := exists_isWritten hname hversion hg hrules
  rw [(generateGrammar_eq_done_left hg).2] at hrec
  obtain ⟨depth, hdepth, hstays⟩ := Run.Settles.eventually
    (runRule_deepens (planGrammar (m.pegRules startRule)) length ctx rule)
    (hwritten.settles_rule (generateGrammar_eq_done hg).1 hrec hrule length ctx st)
  exact ⟨depth, _, hdepth, hstays⟩

/-- A pair starts with a word, and the rest of a pair with a pair or a word. -/
theorem leftRecursive_pairs : Model.pairs.leftRecursive = [] := by
  refine Model.leftRecursive_eq_nil_of_rank
    (fun name => if name = "Rest" then 2 else if name = "Pair" then 1 else 0) ?_
  decide +kernel

/-- All rules of the grammar of pairs answer on the rest of a word. -/
theorem runRule_answers_pairs : ∃ g warnings rules,
    generateGrammar .pairs {} = .done g warnings ∧ g.stats.leftRecursiveRules = [] ∧
    compileGrammar g.text = .ok rules ∧ "Pair" ∈ rules.map Rule.name ∧
    ∃ depth answer, answer ≠ .stuck ∧ ∀ more, depth ≤ more →
      runRule (planGrammar rules) 4 more {} "Pair"
        { rest := "b,c".toList, attempts := .none 4 } = answer := by
  obtain ⟨g, hg, hsource⟩ := Model.isAccepted_pairs.exists_grammar
  have hrec : g.stats.leftRecursiveRules = [] :=
    (generateGrammar_eq_done_left hg).2.trans leftRecursive_pairs
  have hrules : compileGrammar g.text = .ok (Model.pairs.pegRules "start") := by
    rw [show g.text = _ from congrArg GrammarSource.text hsource]
    exact Model.isAccepted_pairs.compileGrammar_eq
  have hrule : "Pair" ∈ (Model.pairs.pegRules "start").map Rule.name := by decide +kernel
  exact ⟨g, _, _, hg, hrec, hrules, hrule,
    runRule_answers (by decide) (by decide) hg hrec hrules hrule _ _ _⟩

end GrammarKit
