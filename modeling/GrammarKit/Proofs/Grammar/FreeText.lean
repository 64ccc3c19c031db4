import GrammarKit.Proofs.Grammar.Reading

/-!
# Free text in grammars

The name and the version of a model and the descriptions of its nodes stand in the comments of its
grammar. As long as they stand there, they have no say in how the grammar is read.

* `Model.DiffersInText`: models that differ in free text only.
* `Model.DiffersInText.map_rule_rules`: their rules are the same but for comments.
* **`map_rule_readGrammar_eq`**: their grammars are read as the same rules.
-/

namespace GrammarKit

open Peg

/-- **The models differ in names, versions and descriptions only.** -/
structure Model.DiffersInText (m other : Model) : Prop where
  start : m.start = other.start
  nodes : (m.nodes.entries.map fun e => (e.1, e.2.body)) =
    other.nodes.entries.map fun e => (e.1, e.2.body)

variable {m other : Model} {c d : GrammarConfig}

/-- The rule of a node, its comment aside, depends on its body only. -/
theorem NodeRule.map_rule_ofNode {name : String} {n k : Node} (h : n.body = k.body) :
    (NodeRule.ofNode name n).toOption.map NodeRule.rule =
      (NodeRule.ofNode name k).toOption.map NodeRule.rule := by
  unfold ofNode
  rw [h]
  cases k.body with
  | token pattern =>
    dsimp only
    cases pattern.expr with
    | error cause => rfl
    | ok body => rfl
  | union members => rfl
  | deduction elements => rfl

/-- **Models that differ in free text have the same rules**, comments aside. -/
theorem Model.DiffersInText.map_rule_rules (h : m.DiffersInText other) :
    m.rules.map NodeRule.rule = other.rules.map NodeRule.rule := by
  have hrules (m : Model) : m.rules.map NodeRule.rule =
      (m.nodes.entries.map fun e => (e.1, e.2.body)).filterMap fun e =>
        (NodeRule.ofNode e.1 { body := e.2 }).toOption.map NodeRule.rule := by
    rw [rules, List.map_filterMap, List.filterMap_map]
    exact List.filterMap_congr fun e _ => NodeRule.map_rule_ofNode rfl
  rw [hrules m, hrules other, h.nodes]

/-- The rules of two models, side by side. -/
theorem exists_rows {rs qs : List NodeRule} (h : rs.map NodeRule.rule = qs.map NodeRule.rule)
    (a b : Bool) : ∃ rows : List (Row Bool),
      (rs.map fun r => Paragraph.mk (r.lead a) r.rule.text r.rule) =
        rows.map (Row.paragraph false) ∧
      (qs.map fun r => Paragraph.mk (r.lead b) r.rule.text r.rule) =
        rows.map (Row.paragraph true) ∧
      rows.map Row.rule = rs.map NodeRule.rule ∧
      ∀ q ∈ rows, ∀ i, ∃ (r : NodeRule) (includeComments : Bool),
        q.lead i = r.lead includeComments := by
  induction rs generalizing qs with
  | nil =>
    obtain rfl := List.map_eq_nil_iff.1 h.symm
    exact ⟨[], rfl, rfl, rfl, fun q hq => by cases hq⟩
  | cons r rs ih =>
    obtain ⟨q, qs, rfl, hq, hqs⟩ := List.map_eq_cons_iff.1 h.symm
    obtain ⟨rows, hleft, hright, hrule, hlead⟩ := ih hqs.symm
    refine ⟨⟨fun i => if i then q.lead b else r.lead a, r.rule⟩ :: rows, ?_, ?_, ?_, ?_⟩
    · rw [List.map_cons, List.map_cons, hleft]
      rfl
    · rw [List.map_cons, List.map_cons, hright, hq]
      rfl
    · rw [List.map_cons, List.map_cons, hrule]
    · rw [List.forall_mem_cons]
      refine ⟨fun i => ?_, hlead⟩
      cases i
      · exact ⟨r, a, rfl⟩
      · exact ⟨q, b, rfl⟩

theorem toOption_eq_none {ε α : Type} {x : Except ε α} (h : ∀ a, x ≠ .ok a) :
    x.toOption = none := by
  cases x with
  | ok a => exact absurd rfl (h a)
  | error => rfl

/-- **Free text does not change how a grammar is read**, unless it starts a new line. -/
theorem map_rule_readGrammar_eq {g k : Grammar} {warnings more : List String}
    (hg : generateGrammar m c = .done g warnings) (hk : generateGrammar other d = .done k more)
    (h : m.DiffersInText other) (hcd : { c with includeComments := d.includeComments } = d)
    (hname : '\n' ∉ m.name.toList) (hversion : '\n' ∉ m.version.toList)
    (hname' : '\n' ∉ other.name.toList) (hversion' : '\n' ∉ other.version.toList) :
    (readGrammar g.text.toList).toOption.map (List.map Definition.rule) =
      (readGrammar k.text.toList).toOption.map (List.map Definition.rule) := by
  obtain ⟨hv, -, -⟩ := generateGrammar_eq_done hg
  obtain ⟨hv', -, -⟩ := generateGrammar_eq_done hk
  obtain ⟨hident, -⟩ := generateGrammar_eq_done_left hg
  have hstart : d.startRule = c.startRule := (congrArg GrammarConfig.startRule hcd).symm
  obtain ⟨rows, hrows, hrows', hrule, hlead⟩ :=
    exists_rows h.map_rule_rules c.includeComments d.includeComments
  have hsimple : ∀ q ∈ rows, q.IsSimple := Model.isSimple_rows hv hrule hlead
  have htext : g.text.toList = m.textOf c.startRule (rowsText rows false) := by
    rw [(generateGrammar_eq_done_rules hg).1]
    exact Model.grammarText_eq_textOf hrows
  have htext' : k.text.toList = other.textOf c.startRule (rowsText rows true) := by
    rw [(generateGrammar_eq_done_rules hk).1, ← hstart]
    exact Model.grammarText_eq_textOf hrows'
  -- both texts go the same way, the first for `false` and the second for `true`
  obtain ⟨name, hread | hrefused⟩ := Model.readGrammar_textOf
    (m := fun i => if i then other else m) (Bool.forall_bool.2 ⟨hv, hv'⟩)
    (Bool.forall_bool.2 ⟨hname, hname'⟩) (Bool.forall_bool.2 ⟨hversion, hversion'⟩)
    (Bool.forall_bool.2 ⟨rfl, h.start.symm⟩) hident hsimple
  · obtain ⟨ds, hds, hwrites⟩ := hread false
    obtain ⟨ds', hds', hwrites'⟩ := hread true
    have hleft : readGrammar g.text.toList = .ok ds := htext ▸ hds
    have hright : readGrammar k.text.toList = .ok ds' := htext' ▸ hds'
    rw [hleft, hright]
    show some (ds.map Definition.rule) = some (ds'.map Definition.rule)
    rw [map_rule_of_writes hwrites, map_rule_of_writes hwrites']
  · have hleft : (readGrammar g.text.toList).toOption = none :=
      htext ▸ toOption_eq_none (hrefused false)
    have hright : (readGrammar k.text.toList).toOption = none :=
      htext' ▸ toOption_eq_none (hrefused true)
    rw [hleft, hright]

/-- Pairs under another name and version, with a description that looks like a rule. -/
def Model.describedPairs : Model where
  name := "Pairs \x7d // of words"
  version := "\" | COMMENT"
  start := "Pair"
  nodes := Model.pairs.nodes.insert "Word"
    ⟨some "letters\nCOMMENT = _\x7b \"a\" \x7d", .token (.regex "[a-z]+")⟩

/-- The grammars of pairs, with and without comments, are read as the same rules. -/
theorem map_rule_readGrammar_pairs : ∃ g k warnings more,
    generateGrammar .pairs { includeComments := false } = .done g warnings ∧
      generateGrammar .describedPairs {} = .done k more ∧
      Model.pairs.DiffersInText .describedPairs ∧
      (readGrammar g.text.toList).toOption.map (List.map Definition.rule) =
        (readGrammar k.text.toList).toOption.map (List.map Definition.rule) := by
  have h := Model.isAccepted_pairs
  have hpairs : Model.pairs.ruleFaults "start" = [] := h.ruleFaults_eq_nil
  obtain ⟨g, hg, -⟩ := Model.exists_grammar_of_ruleFaults (c := { includeComments := false })
    h.valid hpairs
  have hfaults : Model.describedPairs.ruleFaults "start" = [] :=
    Model.ruleFaults_eq_nil_of_isOpenName (by decide +kernel) (by decide +kernel)
      (by decide +kernel)
  obtain ⟨k, hk, -⟩ := Model.exists_grammar_of_ruleFaults (c := {}) (by decide +kernel) hfaults
  have hdiffers : Model.pairs.DiffersInText .describedPairs := ⟨rfl, by decide +kernel⟩
  exact ⟨g, k, _, _, hg, hk, hdiffers, map_rule_readGrammar_eq hg hk hdiffers rfl h.name h.version
    (by decide) (by decide)⟩

/-- A single word in a model of this name. -/
def Model.oneWord (name : String) : Model := (new name "Word").insert "Word" (.token (.literal "a"))

/-- A name with a line feed adds a rule. -/
theorem map_rule_readGrammar_ne : ∃ g k warnings more,
    generateGrammar (.oneWord "Words") {} = .done g warnings ∧
      generateGrammar (.oneWord "Words\nCOMMENT = _\x7b \"#\" \x7d\n//") {} = .done k more ∧
      (Model.oneWord "Words").DiffersInText (.oneWord "Words\nCOMMENT = _\x7b \"#\" \x7d\n//") ∧
      (readGrammar g.text.toList).toOption.map (List.map Definition.rule) ≠
        (readGrammar k.text.toList).toOption.map (List.map Definition.rule) := by
  have hfaults (name : String) : (Model.oneWord name).ruleFaults "start" = [] := by
    have hnames : (Model.oneWord name).names = ["Word"] := rfl
    exact Model.ruleFaults_eq_nil_of_isOpenName (hnames ▸ by decide) (hnames ▸ by decide) rfl
  obtain ⟨g, hg, -⟩ := Model.exists_grammar_of_ruleFaults (m := .oneWord "Words") (c := {})
    (by decide +kernel) (hfaults _)
  obtain ⟨k, hk, -⟩ := Model.exists_grammar_of_ruleFaults
    (m := .oneWord "Words\nCOMMENT = _\x7b \"#\" \x7d\n//") (c := {}) (by decide +kernel)
    (hfaults _)
  refine ⟨g, k, _, _, hg, hk, ⟨rfl, rfl⟩, ?_⟩
  obtain ⟨hv, -, -⟩ := generateGrammar_eq_done hg
  obtain ⟨ds, hds, hwrites⟩ := Model.readGrammar_grammarText (c := {}) hv (by decide) (by decide)
    (isPlainName_of_isIdentifier (by decide)) (by decide)
  rw [(generateGrammar_eq_done_rules hg).1, (generateGrammar_eq_done_rules hk).1, hds]
  have hleft : (ds.map Definition.rule).length = 3 := by
    rw [List.length_map, hwrites.length_eq]
    rfl
  intro he
  have hlength := congrArg (Option.map List.length) he
  rw [show Except.toOption (.ok ds : Except Attempts (List Definition)) = some ds from rfl,
    Option.map_some, Option.map_some, hleft, Option.map_map] at hlength
  revert hlength
  decide +kernel

end GrammarKit
