import GrammarKit.Proofs.Parser.Acceptance
import GrammarKit.Proofs.Parser.Termination

/-!
# Grammars that read back

The text of a generated grammar is meant to be read as its rules. That is so exactly if the name
of the start rule is a plain one and no name starts with `PUSH`, which is taken for a sign.

* `NodeRule.names_ofNode`: the names in the rule of a node.
* `Model.isClean_pegRules_iff`: rules without a name that starts with `PUSH`.
* **`readGrammar_eq_rules_iff`**: when the text of a grammar is read as its rules.
-/

namespace GrammarKit

open Peg

variable {m : Model} {c : GrammarConfig} {g : Grammar} {warnings : List String}

/-- The names in the rule of a node are those that the node refers to, or can be read. -/
theorem NodeRule.names_ofNode {name : String} {n : Node} {r : NodeRule}
    (h : NodeRule.ofNode name n = .ok r) :
    ∀ x ∈ r.body.names, x ∈ n.references ∨ startsWithPush x.toList = false := by
  intro x hx
  unfold ofNode at h
  unfold Node.references
  cases hb : n.body with
  | token pattern =>
    rw [hb] at h
    obtain ⟨e, he, h⟩ := bind_ok h
    cases h
    have hlexical : e.IsLexical := by
      cases pattern with
      | literal text => cases he; exact trivial
      | regex source => exact lowerPattern_isLexical he
    exact .inr (hlexical.readable.names x hx).2
  | deduction elements =>
    rw [hb] at h
    cases h
    cases elements with
    | nil => cases hx
    | cons e es =>
      have hrow : Expr.sequence ((e :: es).map fun e => .ref e.target) =
          .row false e.target (es.map Element.target) := by
        rw [← Expr.sequence_refs, ← List.map_cons, List.map_map]
        rfl
      rw [hrow, Expr.names_row] at hx
      exact .inl hx
  | union members =>
    rw [hb] at h
    cases h
    cases members with
    | nil => cases hx
    | cons y ys =>
      rw [Expr.firstOf_refs, Expr.names_row] at hx
      exact .inl hx

/-- **All rules of a model can be read** if none of its names starts with `PUSH`. -/
theorem Model.isClean_pegRules_iff {startRule : String} (hv : m.IsValid)
    (hrules : m.HasRules startRule) :
    (∀ r ∈ m.pegRules startRule, r.isClean = true) ↔
      ∀ name ∈ startRule :: m.names, startsWithPush name.toList = false := by
  constructor
  · intro hclean name hname
    have hmem : name ∈ (m.pegRules startRule).map Rule.name := by
      rw [hrules.map_name_pegRules]
      exact List.mem_cons_of_mem _ hname
    obtain ⟨r, hr, rfl⟩ := List.mem_map.1 hmem
    simpa using List.all_eq_true.1 (hclean r hr) r.name List.mem_cons_self
  · intro hnames r hr
    have hnode {x : String} (hx : m.has x = true) : startsWithPush x.toList = false :=
      hnames x (List.mem_cons_of_mem _ (has_iff.1 hx))
    rw [Rule.isClean, List.all_eq_true, List.forall_mem_cons]
    simp only [Bool.not_eq_true']
    rcases List.mem_cons.1 hr with rfl | hr
    · decide
    rcases List.mem_cons.1 hr with rfl | hr
    · refine ⟨hnames _ List.mem_cons_self, ?_⟩
      have hbody : (startPegRule startRule m.start).body.names = ["SOI", m.start, "EOI"] := by
        show (Expr.sequence (["SOI", m.start, "EOI"].map .ref)).names = _
        rw [Expr.sequence_refs, Expr.names_row]
      simp only [hbody, List.forall_mem_cons, hnode hv.start]
      decide
    · obtain ⟨q, hq, rfl⟩ := List.mem_map.1 hr
      obtain ⟨name, n, hn, hq⟩ := mem_rules.1 hq
      refine ⟨?_, fun x hx => ?_⟩
      · rw [show q.rule.name = name from NodeRule.name_ofNode hq]
        exact hnode (has_iff_node?.2 ⟨n, hn⟩)
      · exact (NodeRule.names_ofNode hq x hx).elim (fun href => hnode (hv.references hn x href)) id

/-- The parts of a grammar that is generated. -/
theorem generateGrammar_eq_done_rules (h : generateGrammar m c = .done g warnings) :
    g.text = grammarText m c m.rules ∧ g.startRule = c.startRule ∧ g.startNode = m.start ∧
      g.rules = m.rules := by
  unfold generateGrammar at h
  split at h
  · cases h
  · split at h
    · cases h
      exact ⟨rfl, rfl, rfl, rfl⟩
    · cases h

/-- Each node has its rule, in order. -/
theorem Model.HasRules.forall₂_rules {startRule : String} (h : m.HasRules startRule) :
    List.Forall₂ (fun (e : String × Node) r => NodeRule.ofNode e.1 e.2 = .ok r)
      m.nodes.entries m.rules := by
  have hentries : ∀ entries : List (String × Node), (∀ e ∈ entries, e ∈ m.nodes.entries) →
      List.Forall₂ (fun (e : String × Node) r => NodeRule.ofNode e.1 e.2 = .ok r) entries
        (entries.filterMap fun e => (NodeRule.ofNode e.1 e.2).toOption) := by
    intro entries hmem
    induction entries with
    | nil => exact .nil
    | cons e entries ih =>
      rw [List.forall_mem_cons] at hmem
      obtain ⟨r, hr⟩ := h.rules (node?_eq_some_iff.2 hmem.1)
      have htail := ih hmem.2
      rw [List.filterMap_cons, hr]
      exact .cons hr htail
  exact hentries m.nodes.entries fun _ => id

/-- **The text of a grammar is read as its rules** exactly if the start rule has a plain name and
no name starts with `PUSH`. -/
theorem readGrammar_eq_rules_iff (hname : '\n' ∉ m.name.toList)
    (hversion : '\n' ∉ m.version.toList) (hg : generateGrammar m c = .done g warnings) :
    List.Forall₂ (fun (e : String × Node) r => NodeRule.ofNode e.1 e.2 = .ok r)
      m.nodes.entries g.rules ∧
    ((∃ ds, readGrammar g.text.toList = .ok ds ∧ ds.map Definition.rule =
        blanksPegRule :: startPegRule g.startRule g.startNode :: g.rules.map NodeRule.rule) ↔
      IsPlainName g.startRule ∧
        ∀ name ∈ g.startRule :: m.names, startsWithPush name.toList = false) := by
  obtain ⟨hv, hnamed, -⟩ := generateGrammar_eq_done hg
  obtain ⟨htext, hstart, hnode, hrules⟩ := generateGrammar_eq_done_rules hg
  rw [htext, hstart, hnode, hrules]
  refine ⟨hnamed.forall₂_rules, ?_⟩
  rw [← Model.isClean_pegRules_iff hv hnamed.toHasRules]
  constructor
  · rintro ⟨ds, hds, hmap⟩
    have hmem : startPegRule c.startRule m.start ∈ ds.map Definition.rule := by
      rw [hmap]
      exact List.mem_cons_of_mem _ List.mem_cons_self
    obtain ⟨d, hd, hrule⟩ := List.mem_map.1 hmem
    have hplain : IsPlainName c.startRule := by
      have hdname := isPlainName_of_readGrammar hds d hd
      rwa [show d.name = c.startRule from congrArg Rule.name hrule] at hdname
    exact ⟨hplain, Model.isClean_of_readGrammar hv hname hversion hplain hds⟩
  · rintro ⟨hplain, hclean⟩
    obtain ⟨ds, hds, hwrites⟩ := Model.readGrammar_grammarText hv hname hversion hplain hclean
    exact ⟨ds, hds, map_rule_of_writes hwrites⟩

/-- The grammar of pairs is read as its rules. -/
theorem readGrammar_eq_rules_pairs : ∃ g warnings ds,
    generateGrammar .pairs {} = .done g warnings ∧ readGrammar g.text.toList = .ok ds ∧
      ds.map Definition.rule =
        blanksPegRule :: startPegRule "start" "Pair" :: g.rules.map NodeRule.rule := by
  have h := Model.isAccepted_pairs
  obtain ⟨g, hg, -⟩ := h.exists_grammar
  obtain ⟨-, hstart, hnode, -⟩ := generateGrammar_eq_done_rules hg
  have hread := (readGrammar_eq_rules_iff h.name h.version hg).2.2
  rw [hstart, hnode] at hread
  obtain ⟨ds, hds, hrules⟩ := hread
    ⟨isPlainName_of_isIdentifier h.isIdentifier_startRule, by decide +kernel⟩
  exact ⟨g, _, ds, hg, hds, hrules⟩

/-- A single word, whose name starts with `PUSH`. -/
def Model.pushed : Model := (new "Words" "PUSHED").insert "PUSHED" (.token (.literal "x"))

/-- A grammar with such a name is generated, but it cannot be read. -/
theorem readGrammar_pushed_ne_ok : ∃ g warnings,
    generateGrammar .pushed {} = .done g warnings ∧ '\n' ∉ Model.pushed.name.toList ∧
      '\n' ∉ Model.pushed.version.toList ∧ ∀ ds, readGrammar g.text.toList ≠ .ok ds := by
  have hvalid : Model.pushed.faults = [] := by decide +kernel
  have hfaults : Model.pushed.ruleFaults "start" = [] :=
    Model.ruleFaults_eq_nil_of_isOpenName (by decide +kernel) (by decide) (by decide +kernel)
  obtain ⟨g, hg, -⟩ := Model.exists_grammar_of_ruleFaults (c := {}) hvalid hfaults
  obtain ⟨htext, -⟩ := generateGrammar_eq_done_rules hg
  refine ⟨g, _, hg, by decide, by decide, fun ds hds => ?_⟩
  obtain ⟨hv, hnamed, -⟩ := generateGrammar_eq_done hg
  have hplain : IsPlainName "start" := isPlainName_of_isIdentifier (by decide)
  rw [htext] at hds
  have hclean := Model.isClean_of_readGrammar (c := {}) hv (by decide) (by decide) hplain hds
  exact absurd ((Model.isClean_pegRules_iff hv hnamed.toHasRules).1 hclean "PUSHED" (by decide))
    (by decide)

end GrammarKit
