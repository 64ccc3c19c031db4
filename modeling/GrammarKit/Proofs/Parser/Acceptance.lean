import GrammarKit.Proofs.Code.Identifier
import GrammarKit.Proofs.Parser.Routines

/-!
# Models whose grammar is accepted

Whether the grammar of a model compiles can be told from its rules, without writing and reading
its text.

* `Model.IsAccepted`: what is asked of the rules of a model.
* **`IsAccepted.exists_compiled`**: such a model has a parser.
* `Model.pairs`: a small model that is accepted.
-/

namespace GrammarKit

open Peg

/-- A rule that was read without a fault is the rule that was written, but for places. -/
theorem Peg.Definition.Writes.bare {d : Definition} {r : Rule} (h : d.Writes r)
    (hs : r.body.isSound = true) : d.bare = .ofRule r := by
  rw [Definition.bare, h.name, h.kind, h.body.bare hs]
  rfl

theorem Peg.map_bare_of_writes {ds : List Definition} {rules : List Rule}
    (h : List.Forall₂ Definition.Writes ds rules) (hs : ∀ r ∈ rules, r.body.isSound = true) :
    ds.map Definition.bare = rules.map .ofRule := by
  induction h with
  | nil => rfl
  | cons hw _ ih =>
    rw [List.map_cons, List.map_cons, hw.bare (hs _ List.mem_cons_self),
      ih fun r hr => hs r (List.mem_cons_of_mem _ hr)]

/-- Whether a rule can be read back, with counts that can be numbered. -/
def Peg.Rule.isReadable (r : Rule) : Bool :=
  r.isClean && r.body.isSound && !r.body.countsTooFar

/-- Whether a name can be that of a rule: a plain word of code that is not reserved. -/
def isOpenName (name : String) : Bool :=
  isIdentifier name && Code.isPlainWord name && !reservedRuleNames.contains name

theorem isIdentifier_of_isOpenName {name : String} (h : isOpenName name = true) :
    Code.isIdentifier name = true ∧ name ∉ reservedRuleNames := by
  simp only [isOpenName, Bool.and_eq_true, Bool.not_eq_true', List.contains_eq_mem,
    decide_eq_false_iff_not] at h
  exact ⟨Code.isIdentifier_of_isPlainWord h.1.1 h.1.2, h.2⟩

/-- The checks on the names of rules and on patterns find no fault in open names of nodes, whatever
stands around the name of the start rule. -/
theorem Model.ruleFaults_eq_nil_of_isIdentifier {m : Model} {startRule : String}
    (hident : Code.isIdentifier startRule = true) (hreserved : startRule ∉ reservedRuleNames)
    (hnames : m.names.all isOpenName = true) (hapart : startRule ∉ m.names)
    (hpatterns : m.nodes.entries.flatMap patternFaults = []) : m.ruleFaults startRule = [] := by
  rw [ruleFaults, hpatterns, List.append_nil, List.append_eq_nil_iff, List.flatMap_eq_nil_iff]
  constructor
  · simp [startRuleFaults, hident, hreserved]
  · intro name hn
    have hopen := isIdentifier_of_isOpenName (List.all_eq_true.1 hnames name hn)
    have hne : name ≠ startRule := fun he => hapart (he ▸ hn)
    simp [ruleNameFaults, hopen, hne]

/-- The checks on the names of rules and on patterns find no fault in open names. -/
theorem Model.ruleFaults_eq_nil_of_isOpenName {m : Model} {startRule : String}
    (hnames : (startRule :: m.names).all isOpenName = true) (hapart : startRule ∉ m.names)
    (hpatterns : m.nodes.entries.flatMap patternFaults = []) : m.ruleFaults startRule = [] := by
  rw [List.all_cons, Bool.and_eq_true] at hnames
  obtain ⟨hident, hreserved⟩ := isIdentifier_of_isOpenName hnames.1
  exact ruleFaults_eq_nil_of_isIdentifier hident hreserved hnames.2 hapart hpatterns

/-- A grammar is generated where nothing is wrong. -/
theorem Model.exists_grammar_of_ruleFaults {m : Model} {c : GrammarConfig} (hvalid : m.faults = [])
    (hfaults : m.ruleFaults c.startRule = []) :
    ∃ g, generateGrammar m c = .done g (leftRecursionWarnings m.leftRecursive) ∧
      g.source = ⟨grammarText m c m.rules, c.startRule, m.shapes⟩ := by
  rw [generateGrammar, if_neg (not_not.2 hvalid), hfaults]
  exact ⟨_, rfl, rfl⟩

/-- The parser that runs the routines of a model. -/
def Model.parser (m : Model) (c : GrammarConfig) (serial : Nat) : CompiledParser where
  serial
  key := .ofText (grammarText m c m.rules)
  startRule := c.startRule
  routines := m.routines c.startRule
  shapes := .ofList m.shapes

/-- **What is asked of a model**: it is valid and written without line breaks, its names are free
for rules, its patterns can be lowered, and the checks on its rules find no fault. -/
structure Model.IsAccepted (m : Model) (c : GrammarConfig) : Prop where
  valid : m.faults = []
  name : '\n' ∉ m.name.toList
  version : '\n' ∉ m.version.toList
  names : (c.startRule :: m.names).all isOpenName = true
  apart : c.startRule ∉ m.names
  patterns : m.nodes.entries.flatMap patternFaults = []
  readable : (m.pegRules c.startRule).all Rule.isReadable = true
  rules : grammarFaults [] ((m.pegRules c.startRule).map .ofRule) = []

namespace Model.IsAccepted

variable {m : Model} {c : GrammarConfig} (h : m.IsAccepted c)

include h

theorem isIdentifier_startRule : isIdentifier c.startRule = true := by
  have := List.all_eq_true.1 h.names _ List.mem_cons_self
  simp only [isOpenName, Bool.and_eq_true] at this
  exact this.1.1

theorem ruleFaults_eq_nil : m.ruleFaults c.startRule = [] :=
  ruleFaults_eq_nil_of_isOpenName h.names h.apart h.patterns

theorem exists_grammar :
    ∃ g, generateGrammar m c = .done g (leftRecursionWarnings m.leftRecursive) ∧
      g.source = ⟨grammarText m c m.rules, c.startRule, m.shapes⟩ :=
  exists_grammar_of_ruleFaults h.valid h.ruleFaults_eq_nil

theorem compileGrammar_eq :
    compileGrammar (grammarText m c m.rules) = .ok (m.pegRules c.startRule) := by
  have hreadable {r : Rule} (hr : r ∈ m.pegRules c.startRule) :
      (r.isClean = true ∧ r.body.isSound = true) ∧ r.body.countsTooFar = false := by
    simpa [Rule.isReadable] using List.all_eq_true.1 h.readable r hr
  obtain ⟨ds, hds, hwrites⟩ := readGrammar_grammarText (faults_eq_nil_iff.1 h.valid) h.name
    h.version (isPlainName_of_isIdentifier h.isIdentifier_startRule)
    fun r hr => (hreadable hr).1.1
  have hbare := map_bare_of_writes hwrites fun r hr => (hreadable hr).1.2
  have hfaults : grammarFaults (grammarText m c m.rules).toList ds = [] :=
    (grammarFaults_bare ds _ []).1 (hbare ▸ h.rules)
  have hcounts : (ds.any (·.body.expr.countsTooFar)) = false := by
    rw [List.any_eq_false]
    intro d hd
    have hr : d.rule ∈ m.pegRules c.startRule :=
      map_rule_of_writes hwrites ▸ List.mem_map_of_mem hd
    exact Bool.eq_false_iff.1 (hreadable hr).2
  unfold compileGrammar
  simp only [hds, hfaults, hcounts, map_rule_of_writes hwrites, Bool.false_eq_true, if_false]

/-- **A model that is accepted has a parser**, which runs its routines. -/
theorem exists_compiled (serial : Nat) :
    ∃ g, generateGrammar m c = .done g (leftRecursionWarnings m.leftRecursive) ∧
      g.source.compile serial = .ok (m.parser c serial) := by
  obtain ⟨g, hg, hsource⟩ := h.exists_grammar
  refine ⟨g, hg, ?_⟩
  unfold GrammarSource.compile
  rw [hsource]
  simp only [h.compileGrammar_eq]
  rfl

end Model.IsAccepted

/-! ## A model of pairs -/

/-- Words in pairs: the rest of a pair is a pair again, or a word. -/
def Model.pairs : Model :=
  ((((new "Pairs" "Pair").insert "Word" (.token (.regex "[a-z]+"))).insert "Comma"
    (.token (.literal ","))).insert "Rest" (.union ["Pair", "Word"])).insert "Pair"
      (.deduction [⟨"Word", some "first"⟩, ⟨"Comma", none⟩, ⟨"Rest", some "rest"⟩])

theorem Model.isAccepted_pairs : pairs.IsAccepted {} where
  valid := by decide +kernel
  name := by decide
  version := by decide
  names := by decide +kernel
  apart := by decide +kernel
  patterns := by decide +kernel
  readable := by decide +kernel
  rules := by decide +kernel

end GrammarKit
