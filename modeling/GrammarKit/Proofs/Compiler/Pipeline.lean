import GrammarKit.Proofs.Compiler.Breakage
import GrammarKit.Proofs.Grammar.Reading
import GrammarKit.Proofs.Parser.Answers
import GrammarKit.Proofs.Peg.Recursion

/-!
# From a model to the value of a text

A model is compiled, the grammar that comes out of it is compiled in turn, and the parser reads a
text. Each step ends with a result or with an error, but for what is named here: affixes of names
that leave no words, an indentation without a text, counts that cannot be numbered, and a start
rule whose name is no plain one.

* `compile_eq_senseless_iff`: grammars without any meaning.
* `parse_ne_stuck`, `parse_eq_stuck`: parsers with and without answers.
* **`pipeline_breaks_iff`**: when a step from a model to a value breaks down.
-/

namespace GrammarKit

open Peg Code

/-! ## Grammars without any meaning -/

namespace Peg

theorem isFatal_of_mem_nameFaults {ds : List Definition} {f : Finding} (h : f ∈ nameFaults ds) :
    f.1.isFatal = false := by
  have hrepeated {seen : List String} {ds : List Definition} {f : Finding}
      (h : f ∈ repeatedRules seen ds) : f.1.isFatal = false := by
    induction ds generalizing seen with
    | nil => cases h
    | cons d ds ih =>
      rw [repeatedRules] at h
      split at h
      · rcases List.mem_cons.1 h with rfl | h
        · rfl
        · exact ih h
      · exact ih h
  simp only [nameFaults, List.mem_append, List.mem_filterMap] at h
  rcases h with (⟨d, -, h⟩ | h) | ⟨⟨name, span⟩, -, h⟩
  · split at h
    · cases h
      rfl
    · cases h
  · exact hrepeated h
  · simp only at h
    split at h
    · cases h
    · cases h
      rfl

/-- **Rules without faulty parts have a meaning**: all that the checks find about them is reported. -/
theorem isFatal_of_mem_grammarFaults {source : List Char} {ds : List Definition}
    (hds : valueFault? ds = none) {f : Finding} (h : f ∈ grammarFaults source ds) :
    f.1.isFatal = false := by
  unfold grammarFaults at h
  split at h
  · rw [hds] at h
    exact isFatal_of_mem_runFaults h
  · exact isFatal_of_mem_nameFaults h

/-- A grammar text has no meaning exactly if its rules pass all checks but for counts, where none
of its parts is faulty. -/
theorem compileGrammar_eq_senseless_iff {text : String} {ds : List Definition}
    (hread : readGrammar text.toList = .ok ds) (hds : valueFault? ds = none) :
    compileGrammar text = .error .senseless ↔
      grammarFaults text.toList ds = [] ∧ ∃ d ∈ ds, d.body.expr.countsTooFar = true := by
  unfold compileGrammar
  simp only [hread]
  cases hfaults : grammarFaults text.toList ds with
  | nil => simp [← List.any_eq_true]
  | cons f fs =>
    have hany : ((f :: fs).any (·.1.isFatal)) = false := by
      rw [List.any_eq_false]
      intro x hx
      rw [← hfaults] at hx
      simp [isFatal_of_mem_grammarFaults hds hx]
    simp [hany]

end Peg

theorem GrammarSource.compile_eq_senseless_iff (source : GrammarSource) (serial : Nat) :
    source.compile serial = .error .senseless ↔ compileGrammar source.text = .error .senseless := by
  unfold GrammarSource.compile
  split <;> simp [*]

/-- A text that is compiled already is not compiled again. -/
theorem ParserCache.compile_eq_senseless_iff {cache : ParserCache} {source : GrammarSource} :
    cache.compile source = .error .senseless ↔
      cache.find? (.ofText source.text) = none ∧
        compileGrammar source.text = .error .senseless := by
  rw [← GrammarSource.compile_eq_senseless_iff source cache.compiled]
  unfold ParserCache.compile
  split
  · simp [*]
  · rename_i hnone
    rw [hnone]
    cases source.compile cache.compiled <;> simp [bind, Except.bind, pure, Except.pure]

section Grammar

variable {m : Model} {c : GrammarConfig} {g : Grammar} {warnings : List String}
  (hg : generateGrammar m c = .done g warnings)

include hg

/-- What is read of the text of a grammar has no faulty parts, and counts as far as its rules. -/
theorem valueFault?_of_readGrammar (hname : '\n' ∉ m.name.toList)
    (hversion : '\n' ∉ m.version.toList) {ds : List Definition}
    (hds : readGrammar g.text.toList = .ok ds) :
    valueFault? ds = none ∧ ((∃ d ∈ ds, d.body.expr.countsTooFar = true) ↔
      ∃ r ∈ g.rules, r.rule.body.countsTooFar = true) := by
  obtain ⟨hv, -, -⟩ := generateGrammar_eq_done hg
  obtain ⟨htext, -, -, hrules⟩ := generateGrammar_eq_done_rules hg
  rw [htext] at hds
  obtain ⟨startRule, hwrites⟩ := Model.exists_writes_of_readGrammar hv hname hversion
    (generateGrammar_eq_done_left hg).1 hds
  constructor
  · exact valueFault?_of_bare (map_bare_of_writes hwrites Model.isSound_pegRules)
  · have hmap : ds.map (fun d => d.body.expr.countsTooFar) =
        (m.pegRules startRule).map fun r => r.body.countsTooFar := by
      rw [← map_rule_of_writes hwrites, List.map_map]
      rfl
    have hany : (∃ d ∈ ds, d.body.expr.countsTooFar = true) ↔
        ∃ r ∈ m.pegRules startRule, r.body.countsTooFar = true := by
      rw [← List.mem_map (f := fun d : Definition => d.body.expr.countsTooFar) (b := true), hmap,
        List.mem_map]
    have hblanks : blanksPegRule.body.countsTooFar = false := rfl
    have hstart : (startPegRule startRule m.start).body.countsTooFar = false := rfl
    rw [hany, hrules]
    simp [Model.pegRules, hblanks, hstart]

/-- **A grammar has no meaning** exactly if it passes all checks, and a rule counts further than its
steps can be numbered. -/
theorem compile_eq_senseless_iff (hname : '\n' ∉ m.name.toList) (hversion : '\n' ∉ m.version.toList)
    (cache : ParserCache) :
    cache.compile g.source = .error .senseless ↔
      cache.find? (.ofText g.text) = none ∧
      (∃ ds, readGrammar g.text.toList = .ok ds ∧ grammarFaults g.text.toList ds = []) ∧
      ∃ r ∈ g.rules, r.rule.body.countsTooFar = true := by
  have hgrammar : compileGrammar g.text = .error .senseless ↔
      (∃ ds, readGrammar g.text.toList = .ok ds ∧ grammarFaults g.text.toList ds = []) ∧
        ∃ r ∈ g.rules, r.rule.body.countsTooFar = true := by
    cases hread : readGrammar g.text.toList with
    | error a =>
      unfold compileGrammar
      simp [hread]
    | ok ds =>
      obtain ⟨hds, hcounts⟩ := valueFault?_of_readGrammar hg hname hversion hread
      rw [compileGrammar_eq_senseless_iff hread hds, hcounts]
      simp
  rw [← hgrammar]
  exact ParserCache.compile_eq_senseless_iff

end Grammar

/-! ## Parsers without an answer -/

theorem CompiledParser.parse_eq_stuck_iff {p : CompiledParser} {text : String} :
    p.parse text = .stuck ↔ Peg.parseWith p.routines p.startRule text.toList = .stuck := by
  unfold CompiledParser.parse
  simp only
  split
  · rename_i hmatched
    rw [hmatched]
    split <;> simp
  · simp [*]
  · simp [*]

section Parser

variable {m : Model} {c : GrammarConfig} {g : Grammar} {warnings : List String} {serial : Nat}
  {p : CompiledParser} (hg : generateGrammar m c = .done g warnings)
  (hp : g.source.compile serial = .ok p)

include hg hp

/-- **A parser whose start rule has a plain name has an answer** on every text, where no rule is
left-recursive. -/
theorem parse_ne_stuck (hname : '\n' ∉ m.name.toList) (hversion : '\n' ∉ m.version.toList)
    (hs : IsPlainName g.startRule) (hrec : g.stats.leftRecursiveRules = []) (text : String) :
    p.parse text ≠ .stuck := by
  obtain ⟨hv, hnamed, hsource⟩ := generateGrammar_eq_done hg
  obtain ⟨rules, hrules, hstart, hroutines, -⟩ := compile_eq_ok hp
  obtain ⟨ds, hds, hfaults, rfl⟩ := compileGrammar_eq_ok hrules
  rw [show g.startRule = c.startRule from congrArg GrammarSource.startRule hsource] at hs
  have hwrites := exists_writes_of_isPlainName hg hname hversion hs hds
  rw [(generateGrammar_eq_done_left hg).2] at hrec
  rw [Ne, CompiledParser.parse_eq_stuck_iff, hroutines, map_rule_of_writes hwrites, hstart, hsource]
  exact (hnamed.isWritten hv hwrites hfaults).parseWith_ne_stuck hnamed hv hrec text.toList

/-- **A parser whose start rule has another name has no answer** on any text. -/
theorem parse_eq_stuck (hs : ¬ IsPlainName g.startRule) (text : String) : p.parse text = .stuck := by
  obtain ⟨-, -, hsource⟩ := generateGrammar_eq_done hg
  rw [show g.startRule = c.startRule from congrArg GrammarSource.startRule hsource] at hs
  exact CompiledParser.parse_eq_stuck_iff.2 (parseWith_eq_stuck hg hp hs text.toList)

end Parser

/-! ## All steps -/

theorem generateGrammar_of_compileModel {m : Model} {c : Config} {g : Grammar}
    (h : (compileModel m c).grammar.output? = some g) :
    ∃ warnings, generateGrammar m c.grammar = .done g warnings := by
  unfold compileModel at h
  split at h
  · cases h
  · simp only at h
    cases hg : generateGrammar m c.grammar with
    | done output warnings =>
      rw [hg] at h
      cases h
      exact ⟨warnings, rfl⟩
    | refused errors warnings =>
      rw [hg] at h
      cases h
    | broken =>
      rw [hg] at h
      cases h

/-- **When a step from a model to a value breaks down.** A compilation does so through affixes that
leave no words, or an indentation without a text; a grammar through counts that cannot be numbered;
and a parser through a start rule whose name is no plain one, and then on every text. What is said of
grammars and parsers leaves out names and versions with a line feed: behind it the text of the
grammar goes on outside its comment, with rules of its own, and a literal there whose escape names a
surrogate has no meaning either. -/
theorem pipeline_breaks_iff {m : Model} {c : Config} :
    ((compileModel m c).isBroken = true ↔ m.faults = [] ∧ m.IsNameable c.naming ∧
      ((∃ e ∈ m.nodes.entries, mappedType? c.naming e = none ∧
          isWordBack (c.naming.suffix e.2.kind) = false) ∨
        (schemaPath? c.stringifier.schemaPath).isSome = true ∧
          (c.stringifier.indentStyle.unit? = none ∨
            isWordFront c.naming.functionPrefix = false))) ∧
    ∀ g, (compileModel m c).grammar.output? = some g →
      '\n' ∉ m.name.toList → '\n' ∉ m.version.toList →
      (∀ cache : ParserCache, cache.compile g.source = .error .senseless ↔
        cache.find? (.ofText g.text) = none ∧
        (∃ ds, readGrammar g.text.toList = .ok ds ∧ grammarFaults g.text.toList ds = []) ∧
        ∃ r ∈ g.rules, r.rule.body.countsTooFar = true) ∧
      ∀ serial p, g.source.compile serial = .ok p → g.stats.leftRecursiveRules = [] →
        ∀ text, p.parse text = .stuck ↔ ¬ IsPlainName g.startRule := by
  refine ⟨isBroken_compileModel_iff, fun g houtput hname hversion => ?_⟩
  obtain ⟨warnings, hg⟩ := generateGrammar_of_compileModel houtput
  refine ⟨compile_eq_senseless_iff hg hname hversion, fun serial p hp hrec text => ?_⟩
  constructor
  · intro hstuck hs
    exact parse_ne_stuck hg hp hname hversion hs hrec text hstuck
  · exact fun hs => parse_eq_stuck hg hp hs text

/-- No step breaks down on the way from pairs to the value of a text. -/
theorem pipeline_breaks_iff_pairs : (compileModel .pairs {}).isBroken = false ∧ ∃ g p,
    (compileModel .pairs {}).grammar.output? = some g ∧ g.source.compile 0 = .ok p ∧
    ∀ text, p.parse text ≠ .stuck := by
  have h := Model.isAccepted_pairs
  obtain ⟨g, hg, hp⟩ := h.exists_compiled 0
  have houtput : (compileModel .pairs {}).grammar.output? = some g := by
    unfold compileModel
    rw [if_neg (not_not_intro h.valid)]
    simp only [hg]
    rfl
  have hrec : g.stats.leftRecursiveRules = [] :=
    (generateGrammar_eq_done_left hg).2.trans leftRecursive_pairs
  have hs : IsPlainName g.startRule := by
    rw [(generateGrammar_eq_done_rules hg).2.1]
    exact isPlainName_of_isIdentifier h.isIdentifier_startRule
  have hbreaks := pipeline_breaks_iff (m := .pairs) (c := {})
  refine ⟨?_, g, _, houtput, hp, fun text hstuck => ?_⟩
  · rw [Bool.eq_false_iff, Ne, hbreaks.1]
    rintro ⟨-, -, ⟨e, -, -, hback⟩ | ⟨-, hunit | hfront⟩⟩
    · exact Bool.false_ne_true (hback.symm.trans (Naming.isWordBack_suffix_default e.2.kind))
    · cases hunit
    · exact Bool.false_ne_true (hfront.symm.trans (isWordFront_of_isIdentifier (by decide)))
  · exact ((hbreaks.2 g houtput h.name h.version).2 0 _ hp hrec text).1 hstuck hs

end GrammarKit
