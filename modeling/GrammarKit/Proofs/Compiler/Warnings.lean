import GrammarKit.Proofs.Compiler.Breakage
import GrammarKit.Proofs.Parser.Printing
import GrammarKit.Proofs.Schema.Layout
import GrammarKit.Proofs.Stringifier.Layout

/-!
# Compiling without warnings

A model is compiled without warnings exactly if none of the generators has one. The elements of its
deductions are then all printed, but for those of deductions with a type from outside, which are not
looked at.

* **`compileModel_unwarned_iff`**: what a compilation without warnings consists of.
* `printsBody_of_generateStringifier`: elements that are printed.
* `Model.IsAccepted.compileModel_unwarned`: a model with plain names that is compiled without
  warnings.
-/

namespace GrammarKit

open Peg Code

/-! ## Generators without warnings -/

namespace Generation

theorem distinct_eq_nil_iff {messages : List String} : distinct messages = [] ↔ messages = [] := by
  have hkept (seen messages : List String) : seen ⊆ messages.foldl
      (fun seen message => if message ∈ seen then seen else seen ++ [message]) seen := by
    induction messages generalizing seen with
    | nil => exact List.Subset.refl seen
    | cons message messages ih =>
      refine List.Subset.trans ?_ (ih _)
      dsimp only
      split
      · exact List.Subset.refl seen
      · exact List.subset_append_left _ _
  cases messages with
  | nil => exact iff_of_true rfl rfl
  | cons message messages =>
    refine iff_of_false (fun hnil => ?_) (List.cons_ne_nil _ _)
    have hmem : message ∈ distinct (message :: messages) :=
      hkept [message] messages List.mem_cons_self
    rw [hnil] at hmem
    cases hmem

theorem unwarned_iff {α : Type} {g : Generation α} {more : List String} :
    (g.withWarnings more).success = true ∧ (g.withWarnings more).warnings = [] ↔
      more = [] ∧ ∃ output, g = .done output [] := by
  cases g with
  | done output warnings => simp [withWarnings, success, output?, Generation.warnings]
  | refused errors warnings => simp [withWarnings, success, output?]
  | broken => simp [withWarnings, success, output?]

end Generation

variable {m : Model} {c : Config}

/-- **A model is compiled without warnings** exactly if everything is generated without one, and
the model itself has none. -/
theorem compileModel_unwarned_iff :
    (compileModel m c).success = true ∧ (compileModel m c).warnings = [] ↔
      m.warnings = [] ∧ (∃ files, generateSchema m c.naming c.schema = .done files []) ∧
      (∃ s, generateStringifier m c.naming c.stringifier = .done s []) ∧
      ∃ g, generateGrammar m c.grammar = .done g [] := by
  by_cases hfaults : m.faults = []
  · simp only [compileModel, hfaults, ne_eq, not_true_eq_false, if_false, Compilation.success,
      Compilation.warnings, Generation.distinct_eq_nil_iff, List.append_eq_nil_iff,
      Bool.and_eq_true]
    constructor
    · rintro ⟨⟨⟨hs, ht⟩, hg⟩, ⟨hws, hwt⟩, hwg⟩
      obtain ⟨hm, hschema⟩ := Generation.unwarned_iff.1 ⟨hs, hws⟩
      exact ⟨hm, hschema, (Generation.unwarned_iff.1 ⟨ht, hwt⟩).2,
        (Generation.unwarned_iff.1 ⟨hg, hwg⟩).2⟩
    · rintro ⟨hm, hschema, hstringifier, hgrammar⟩
      obtain ⟨hs, hws⟩ := Generation.unwarned_iff.2 ⟨hm, hschema⟩
      obtain ⟨ht, hwt⟩ := Generation.unwarned_iff.2 ⟨hm, hstringifier⟩
      obtain ⟨hg, hwg⟩ := Generation.unwarned_iff.2 ⟨hm, hgrammar⟩
      exact ⟨⟨⟨hs, ht⟩, hg⟩, ⟨hws, hwt⟩, hwg⟩
  · refine iff_of_false (fun h => ?_) fun ⟨_, _, _, g, hg⟩ => hfaults ?_
    · rw [compileModel, if_pos hfaults] at h
      exact Bool.false_ne_true h.1
    · exact Model.faults_eq_nil_iff.2 (generateGrammar_eq_done hg).1

/-- **Elements that writing functions leave out are warned about**, unless the deduction has a type
from outside. -/
theorem printsBody_of_generateStringifier {s : Stringifier}
    (h : generateStringifier m c.naming c.stringifier = .done s []) {e : NamedNode}
    (he : e ∈ m.nodes.entries) (hmapped : mappedType? c.naming e = none) :
    m.printsBody e.2.body = true := by
  obtain ⟨hfaults, hnameable, unit, path, hunit, hpath⟩ := generateStringifier_eq_done h
  have hunbroken : (generateStringifier m c.naming c.stringifier).isBroken = false := by
    rw [h]
    rfl
  rw [generateStringifier_of_plan hfaults hnameable hpath hunit hunbroken] at h
  obtain ⟨-, hwarnings⟩ := Generation.done.inj h
  have hsilent : nodeWarnings m (namesOf c.naming m) e = [] :=
    List.flatMap_eq_nil_iff.1 (List.append_eq_nil_iff.1 hwarnings).2 e he
  have hgenerated : (namesOf c.naming m).isMapped e.1 = false :=
    (isMapped_namesOf_eq_false_iff (Model.node?_eq_some_iff.2 he)).2 hmapped
  rw [nodeWarnings, hgenerated, if_neg Bool.false_ne_true] at hsilent
  cases hb : e.2.body with
  | deduction elements =>
    simp only [hb, List.filterMap_eq_nil_iff] at hsilent
    refine List.all_eq_true.2 fun x hx => ?_
    have hx := hsilent x hx
    simp only [silentElement?, ite_eq_right_iff, reduceCtorEq, imp_false, not_and_or] at hx
    simpa [Option.isSome_iff_ne_none] using hx
  | _ => rfl

/-! ## Models with plain names -/

theorem output?_compileModel {g : Grammar} {warnings : List String}
    (hg : generateGrammar m c.grammar = .done g warnings) :
    (compileModel m c).grammar.output? = some g := by
  have hfaults := Model.faults_eq_nil_iff.2 (generateGrammar_eq_done hg).1
  rw [compileModel, if_neg (not_not_intro hfaults), hg]
  rfl

/-- All nodes are reachable if enough turns of a walk from the start node meet them. -/
theorem Model.unreachable_eq_nil (h : m.names.all (fun name =>
      ((Graph.turn m.referencesOf m.names)^[Graph.stepCount m.referencesOf m.names + 1]
        ([m.start], [])).2.contains name) = true) : m.unreachable = [] := by
  have hnodup : m.names.Nodup := m.nodes.nodup
  rw [unreachable, List.filter_eq_nil_iff, reachable, Graph.reachedFrom_eq_turns hnodup]
  intro name hname
  have hmet := List.all_eq_true.1 h name hname
  rw [List.contains_eq_mem, decide_eq_true_eq] at hmet
  rw [decide_eq_true_eq]
  exact not_not_intro hmet

/-- **A model with plain names is compiled without warnings** if all nodes are reachable, none is
left-recursive, and the plans of types and functions warn of nothing. -/
theorem Model.IsAccepted.compileModel_unwarned (h : m.IsAccepted c.grammar)
    (hplain : m.hasPlainNames c.naming = true) (hunbroken : (compileModel m c).isBroken = false)
    {path : Option (List Token)} (hpath : schemaPath? c.stringifier.schemaPath = some path)
    {unit : String} (hunit : c.stringifier.indentStyle.unit? = some unit)
    (hreachable : m.unreachable = []) (hleft : m.leftRecursive = [])
    (hplans : unknownMappings c.naming m ++
      (SchemaPlan.build m (plainNamesOf c.naming m) c.schema.includeDocumentation).warnings ++
      (StringifierPlan.mk m (plainNamesOf c.naming m) c.stringifier unit path).warnings = []) :
    (compileModel m c).success = true ∧ (compileModel m c).warnings = [] := by
  have hnameable := isNameable_of_hasPlainNames hplain
  rw [← namesOf_eq_plain hplain] at hplans
  obtain ⟨hplans, hstringifier⟩ := List.append_eq_nil_iff.1 hplans
  obtain ⟨hmappings, hschema⟩ := List.append_eq_nil_iff.1 hplans
  simp only [compileModel, h.valid, ne_eq, not_true_eq_false, if_false, Compilation.isBroken,
    isBroken_withWarnings, Bool.or_eq_false_iff] at hunbroken
  obtain ⟨g, hg, -⟩ := h.exists_grammar
  have hplan : planSchema m c.naming c.schema =
      .ok (.build m (GrammarKit.namesOf c.naming m) c.schema.includeDocumentation) :=
    planSchema_eq_ok_iff.2 ⟨h.valid, hnameable, rfl⟩
  have hs := generateSchema_of_planSchema hplan hunbroken.1.1
  have ht := generateStringifier_of_plan h.valid hnameable hpath hunit hunbroken.1.2
  rw [hmappings, hschema] at hs
  rw [hmappings, hstringifier] at ht
  rw [hleft] at hg
  refine compileModel_unwarned_iff.2 ⟨?_, ⟨_, hs⟩, ⟨_, ht⟩, g, hg⟩
  rw [warnings, hreachable]
  exact ite_self _

end GrammarKit
