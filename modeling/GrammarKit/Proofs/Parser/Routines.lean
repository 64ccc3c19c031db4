import GrammarKit.Parser.Cache
import GrammarKit.Proofs.Peg.Planning

/-!
# The routines of a model

What stands behind each name in the parser of a model: the rule for blanks, the start rule, and
the rule of each node.

* `Model.HasRules`, `Model.IsNamed`: what the checks on the names of rules grant.
* `Model.routines`: the routines of a model.
* **`routineNamed?_token`**, **`routineNamed?_deduction`**, **`routineNamed?_union`**: the routine
  of a node.
* **`compile_routines`**: a compiled parser runs the routines of its model, unless its start rule
  is none of them.
-/

namespace GrammarKit

open Peg

/-! ## Names -/

/-- **The rules of a model are apart**: each node has one, with a name of its own that is not
reserved. -/
structure Model.HasRules (m : Model) (startRule : String) : Prop where
  unreserved : ∀ name ∈ m.names, name ∉ reservedRuleNames
  apart : ∀ name ∈ m.names, name ≠ startRule
  blanks : startRule ≠ "WHITESPACE"
  rules : ∀ {name n}, m.node? name = some n → ∃ r, NodeRule.ofNode name n = .ok r

/-- **What the checks on the names of rules grant.** -/
structure Model.IsNamed (m : Model) (startRule : String) : Prop extends m.HasRules startRule where
  start : startRule ∉ reservedRuleNames

theorem Model.isNamed_of_ruleFaults {m : Model} {startRule : String}
    (h : m.ruleFaults startRule = []) : m.IsNamed startRule := by
  rw [ruleFaults, List.append_eq_nil_iff, List.append_eq_nil_iff, List.flatMap_eq_nil_iff,
    List.flatMap_eq_nil_iff] at h
  obtain ⟨⟨hstart, hnames⟩, hpatterns⟩ := h
  have hname (name : String) (hn : name ∈ m.names) :
      name ∉ reservedRuleNames ∧ name ≠ startRule := by
    have := hnames name hn
    rw [ruleNameFaults] at this
    split at this
    · cases this
    · rename_i hor
      exact not_or.1 hor
  have hreserved : startRule ∉ reservedRuleNames := by
    rw [startRuleFaults] at hstart
    split at hstart
    · cases hstart
    · rename_i hor
      exact (not_or.1 hor).2
  refine ⟨⟨fun name hn => (hname name hn).1, fun name hn => (hname name hn).2, ?_, ?_⟩, hreserved⟩
  · rintro rfl
    exact hreserved (by decide)
  · intro name n hn
    have := hpatterns (name, n) (node?_eq_some_iff.1 hn)
    rw [patternFaults] at this
    cases hr : NodeRule.ofNode name n with
    | ok r => exact ⟨r, rfl⟩
    | error cause =>
      rw [hr] at this
      cases this

theorem NodeRule.name_ofNode {name : String} {n : Node} {r : NodeRule}
    (h : NodeRule.ofNode name n = .ok r) : r.name = name := by
  rw [ofNode] at h
  split at h
  · obtain ⟨e, -, h⟩ := bind_ok h
    cases h
    rfl
  · cases h
    rfl
  · cases h
    rfl

/-! ## Look-up -/

/-- **The routines of a model.** -/
def Model.routines (m : Model) (startRule : String) : List Routine :=
  planGrammar (m.pegRules startRule)

namespace Model.HasRules

variable {m : Model} {startRule : String}

theorem map_name_rules (h : m.HasRules startRule) : m.rules.map NodeRule.name = m.names := by
  have hentries : ∀ entries : List (String × Node), (∀ e ∈ entries, e ∈ m.nodes.entries) →
      (entries.filterMap fun e => (NodeRule.ofNode e.1 e.2).toOption).map NodeRule.name =
        entries.map Prod.fst := by
    intro entries hmem
    induction entries with
    | nil => rfl
    | cons e entries ih =>
      obtain ⟨r, hr⟩ := h.rules (node?_eq_some_iff.2 (hmem e List.mem_cons_self))
      rw [List.filterMap_cons, hr]
      show r.name :: _ = _
      rw [ih fun e he => hmem e (List.mem_cons_of_mem _ he), NodeRule.name_ofNode hr]
      rfl
  exact hentries m.nodes.entries fun _ => id

theorem map_name_pegRules (h : m.HasRules startRule) :
    (m.pegRules startRule).map Rule.name = "WHITESPACE" :: startRule :: m.names := by
  rw [pegRules, List.map_cons, List.map_cons, List.map_map, ← h.map_name_rules]
  rfl

theorem nodup_pegRules (h : m.HasRules startRule) :
    ((m.pegRules startRule).map Rule.name).Nodup := by
  rw [h.map_name_pegRules, List.nodup_cons, List.nodup_cons, List.mem_cons, not_or]
  exact ⟨⟨h.blanks.symm, fun hn => h.unreserved _ hn (by decide)⟩, fun hn => h.apart _ hn rfl,
    m.nodes.nodup⟩

/-- A reserved name is that of the rule for blanks or of the start rule, or no rule has it. -/
theorem notMem_pegRules (h : m.HasRules startRule) {name : String} (hr : name ∈ reservedRuleNames)
    (hblanks : name ≠ "WHITESPACE") (hstart : startRule ≠ name) :
    name ∉ (m.pegRules startRule).map Rule.name := by
  rw [h.map_name_pegRules, List.mem_cons, List.mem_cons, not_or, not_or]
  exact ⟨hblanks, hstart.symm, fun hn => h.unreserved name hn hr⟩

/-- Only the start rule can have the name of the class `ASCII`, and it is not a choice between
texts. -/
theorem ruleTexts?_ascii (h : m.HasRules startRule) (n : Nat) :
    ruleTexts? (m.pegRules startRule) n "ASCII" = none := by
  refine ruleTexts?_eq_none (fun r hr hname f => ?_) n
  rcases List.mem_cons.1 hr with rfl | hr
  · exact absurd hname (by decide)
  · rcases List.mem_cons.1 hr with rfl | hr
    · rfl
    · obtain ⟨q, hq, rfl⟩ := List.mem_map.1 hr
      have hmem : "ASCII" ∈ m.names := by
        rw [← h.map_name_rules, ← show q.name = "ASCII" from hname]
        exact List.mem_map_of_mem hq
      exact absurd (by decide) (h.unreserved _ hmem)

end Model.HasRules

/-! ## Plans -/

/-- The plan of a sequence of names. -/
def Peg.Plan.sequenceOf : List String → Plan
  | [] => .text ""
  | first :: names => .chain false first names

/-- The plan of the rule for blanks. -/
def blanksPlan : Plan :=
  .choice (.text " ") (.choice (.text "\t") (.choice (.text "\r") (.text "\n")))

theorem routine_startPegRule (rules : List Rule) (startRule start : String) :
    (startPegRule startRule start).routine rules =
      ⟨startRule, .normal, .sequenceOf ["SOI", start, "EOI"]⟩ :=
  routine_row (by simp [startPegRule]) (Expr.sequence_refs "SOI" [start, "EOI"]) rules

section Node

variable {rules : List Rule} {name : String} {n : Node} {r : NodeRule}
  (hr : NodeRule.ofNode name n = .ok r)

include hr

theorem routine_token {pattern : Pattern} (hb : n.body = .token pattern)
    (hascii : ∀ n, ruleTexts? rules n "ASCII" = none) :
    ∃ p, r.rule.routine rules = ⟨name, .atomic, p⟩ ∧ p.IsPlain ∧
      ∀ text, pattern = .literal text → p = .text text := by
  rw [NodeRule.ofNode, hb] at hr
  obtain ⟨e, he, hr⟩ := bind_ok hr
  cases hr
  refine ⟨_, rfl, ?_, ?_⟩
  · refine Expr.IsLexical.isPlain_routine ?_ hascii
    cases pattern with
    | literal text => cases he; exact trivial
    | regex source => exact lowerPattern_isLexical he
  · rintro text rfl
    cases he
    rfl

theorem routine_deduction {elements : List Element} (hb : n.body = .deduction elements) :
    r.rule.routine rules = ⟨name, .normal, .sequenceOf (elements.map Element.target)⟩ := by
  rw [NodeRule.ofNode, hb] at hr
  cases hr
  cases elements with
  | nil => rfl
  | cons e es =>
    have hbody : Expr.sequence ((e :: es).map fun e => .ref e.target) =
        .row false e.target (es.map Element.target) := by
      rw [← Expr.sequence_refs, ← List.map_cons, List.map_map]
      rfl
    exact routine_row (by simp [NodeRule.rule, Shape.ruleKind]) hbody rules

theorem routine_union {first : String} {members : List String}
    (hb : n.body = .union (first :: members)) :
    r.rule.routine rules = ⟨name, .silent, .chain true first members⟩ := by
  rw [NodeRule.ofNode, hb] at hr
  cases hr
  exact routine_row (by simp [NodeRule.rule, Shape.ruleKind]) (Expr.firstOf_refs first members) rules

end Node

/-! ## The routines of a model -/

namespace Model.HasRules

variable {m : Model} {startRule : String} (h : m.HasRules startRule) (hv : m.IsValid)

include h hv

theorem changesStack_rule {name : String} {n : Node} {r : NodeRule} (hn : m.node? name = some n)
    (hr : NodeRule.ofNode name n = .ok r) :
    (r.rule.routine (m.pegRules startRule)).plan.changesStack [] = false := by
  have hrefs : ∀ x ∈ n.references, x ≠ "POP" ∧ x ≠ "DROP" := by
    intro x hx
    have hx := h.unreserved x (has_iff.1 (hv.references hn x hx))
    exact ⟨fun hp => hx (hp ▸ by decide), fun hp => hx (hp ▸ by decide)⟩
  rw [Node.references] at hrefs
  cases hb : n.body with
  | token pattern =>
    obtain ⟨p, hp, hplain, -⟩ := routine_token hr hb h.ruleTexts?_ascii
    rw [hp]
    exact hplain.changesStack
  | deduction elements =>
    rw [routine_deduction hr hb]
    rw [hb] at hrefs
    cases elements with
    | nil => rfl
    | cons e es => exact Plan.changesStack_chain hrefs
  | union members =>
    cases members with
    | nil => exact absurd rfl (hv.members hn hb)
    | cons first members =>
      rw [routine_union hr hb]
      rw [hb] at hrefs
      exact Plan.changesStack_chain hrefs

/-- The routines of a model are those of its rules, since none of them uses the stack. -/
theorem routines_eq :
    m.routines startRule = (m.pegRules startRule).map (Rule.routine (m.pegRules startRule)) := by
  refine planGrammar_eq_map fun r hr => ?_
  rcases List.mem_cons.1 hr with rfl | hr
  · rfl
  rcases List.mem_cons.1 hr with rfl | hr
  · have hstart := h.unreserved m.start (has_iff.1 hv.start)
    rw [routine_startPegRule]
    refine Plan.changesStack_chain ?_
    simp only [List.forall_mem_cons]
    exact ⟨by decide, ⟨fun hp => hstart (hp ▸ by decide), fun hp => hstart (hp ▸ by decide)⟩,
      by decide, fun n hn => by cases hn⟩
  · obtain ⟨q, hq, rfl⟩ := List.mem_map.1 hr
    obtain ⟨name, n, hn, hq⟩ := mem_rules.1 hq
    exact h.changesStack_rule hv hn hq

theorem routineNamed?_rule {r : Rule} (hr : r ∈ m.pegRules startRule) :
    routineNamed? (m.routines startRule) r.name = some (r.routine (m.pegRules startRule)) := by
  rw [h.routines_eq hv]
  exact routineNamed?_map (fun _ => rfl) h.nodup_pegRules hr

theorem routineNamed?_blanks :
    routineNamed? (m.routines startRule) "WHITESPACE" = some ⟨"WHITESPACE", .silent, blanksPlan⟩ :=
  h.routineNamed?_rule hv (r := blanksPegRule) List.mem_cons_self

theorem routineNamed?_comment (hs : startRule ≠ "COMMENT") :
    routineNamed? (m.routines startRule) "COMMENT" = none := by
  rw [h.routines_eq hv]
  exact routineNamed?_map_eq_none (fun _ => rfl)
    (h.notMem_pegRules (by decide) (by decide) hs)

theorem routineNamed?_start :
    routineNamed? (m.routines startRule) startRule =
      some ⟨startRule, .normal, .sequenceOf ["SOI", m.start, "EOI"]⟩ := by
  rw [← routine_startPegRule (m.pegRules startRule)]
  exact h.routineNamed?_rule hv (r := startPegRule startRule m.start)
    (List.mem_cons_of_mem _ List.mem_cons_self)

variable {name : String} {n : Node} (hn : m.node? name = some n)

include hn

theorem routineNamed?_node {r : NodeRule} (hr : NodeRule.ofNode name n = .ok r) :
    routineNamed? (m.routines startRule) name =
      some (r.rule.routine (m.pegRules startRule)) := by
  have hmem : r.rule ∈ m.pegRules startRule :=
    List.mem_cons_of_mem _ (List.mem_cons_of_mem _
      (List.mem_map_of_mem (mem_rules.2 ⟨name, n, hn, hr⟩)))
  have := h.routineNamed?_rule hv hmem
  rwa [show r.rule.name = name from NodeRule.name_ofNode hr] at this

/-- **The routine of a token.** -/
theorem routineNamed?_token {pattern : Pattern} (hb : n.body = .token pattern) :
    ∃ p, routineNamed? (m.routines startRule) name = some ⟨name, .atomic, p⟩ ∧ p.IsPlain ∧
      ∀ text, pattern = .literal text → p = .text text := by
  obtain ⟨r, hr⟩ := h.rules hn
  obtain ⟨p, hp, hplain, htext⟩ := routine_token hr hb h.ruleTexts?_ascii
  exact ⟨p, hp ▸ h.routineNamed?_node hv hn hr, hplain, htext⟩

/-- **The routine of a deduction.** -/
theorem routineNamed?_deduction {elements : List Element} (hb : n.body = .deduction elements) :
    routineNamed? (m.routines startRule) name =
      some ⟨name, .normal, .sequenceOf (elements.map Element.target)⟩ := by
  obtain ⟨r, hr⟩ := h.rules hn
  rw [h.routineNamed?_node hv hn hr, routine_deduction hr hb]

/-- **The routine of a union.** -/
theorem routineNamed?_union {first : String} {members : List String}
    (hb : n.body = .union (first :: members)) :
    routineNamed? (m.routines startRule) name =
      some ⟨name, .silent, .chain true first members⟩ := by
  obtain ⟨r, hr⟩ := h.rules hn
  rw [h.routineNamed?_node hv hn hr, routine_union hr hb]

end Model.HasRules

theorem Model.IsNamed.routineNamed?_comment {m : Model} {startRule : String}
    (h : m.IsNamed startRule) (hv : m.IsValid) :
    routineNamed? (m.routines startRule) "COMMENT" = none :=
  h.toHasRules.routineNamed?_comment hv fun hs => h.start (hs ▸ by decide)

/-! ## Names that every grammar knows -/

/-- Whether the characters are those of an identifier. -/
def isIdentifierText : List Char → Bool
  | [] => false
  | c :: s => isIdentifierStart c && s.all isIdentifierPart

theorem isIdentifier_shout (name : String) :
    isIdentifier (shout name) = isIdentifierText (name.toList.map Char.toUpper) := by
  rw [isIdentifier, shout, String.toList_ofList]
  rfl

theorem isIdentifier_properties :
    (Text.properties.all fun p => isIdentifierText (p.name.toList.map Char.toUpper)) = true := by
  decide +kernel

theorem isIdentifier_scripts :
    (Text.scripts.all fun s => isIdentifierText (s.name.toList.map Char.toUpper)) = true := by
  decide +kernel

theorem isIdentifier_of_categoryRule? {name : String} {cs : List Text.Category}
    (h : categoryRule? name = some cs) : isIdentifier name = true := by
  rw [categoryRule?.eq_def] at h
  split at h
  all_goals first | rfl | cases h

theorem isIdentifier_of_namedChars? {name : String} {cs : Text.CharSet}
    (h : namedChars? name = some cs) : isIdentifier name = true := by
  rw [namedChars?] at h
  cases hp : Text.properties.find? fun p => shout p.name == name with
  | some p =>
    have hname : shout p.name = name := by simpa using List.find?_some hp
    rw [← hname, isIdentifier_shout]
    exact List.all_eq_true.1 isIdentifier_properties p (List.mem_of_find?_eq_some hp)
  | none =>
    rw [hp] at h
    cases hs : Text.scripts.find? fun s => shout s.name == name with
    | some s =>
      have hname : shout s.name = name := by simpa using List.find?_some hs
      rw [← hname, isIdentifier_shout]
      exact List.all_eq_true.1 isIdentifier_scripts s (List.mem_of_find?_eq_some hs)
    | none =>
      rw [hs] at h
      cases h

/-- Classes of characters have plain names. -/
theorem unicodeClass?_eq_none {name : String} (h : ¬ IsPlainName name) :
    unicodeClass? name = none := by
  rw [unicodeClass?, Option.map_eq_none_iff]
  cases hc : categoryRule? name with
  | some cs => exact absurd (isPlainName_of_isIdentifier (isIdentifier_of_categoryRule? hc)) h
  | none =>
    cases hn : namedChars? name with
    | some cs => exact absurd (isPlainName_of_isIdentifier (isIdentifier_of_namedChars? hn)) h
    | none => rfl

theorem builtinRun?_eq_none {name : String} (h : name ∉ reservedRuleNames) (length : Nat)
    (ctx : Context) : builtinRun? length ctx name = none := by
  have hascii : asciiClass? name = none := by
    rw [asciiClass?.eq_def]
    split
    all_goals first | rfl | exact absurd (by decide) h
  rw [builtinRun?.eq_def]
  split
  all_goals first | rw [hascii, Option.map_none] | exact absurd (by decide) h

/-! ## Running the rule of a node -/

namespace Model.HasRules

variable {m : Model} {startRule : String} (h : m.HasRules startRule) {name : String} {n : Node}
  (hn : m.node? name = some n)

include h hn

theorem notMem_reserved : name ∉ reservedRuleNames :=
  h.unreserved name (has_iff.1 (has_iff_node?.2 ⟨n, hn⟩))

theorem isGap_eq_false (kind : RuleKind) (p : Plan) : (Routine.mk name kind p).isGap = false := by
  have hreserved := h.notMem_reserved hn
  have hblanks : name ≠ "WHITESPACE" := fun hname => hreserved (hname ▸ by decide)
  have hcomment : name ≠ "COMMENT" := fun hname => hreserved (hname ▸ by decide)
  simp [Routine.isGap, hblanks, hcomment]

variable (length depth : Nat) (ctx : Context)

theorem runRule_token {p : Plan}
    (hr : routineNamed? (m.routines startRule) name = some ⟨name, .atomic, p⟩) :
    runRule (m.routines startRule) length (depth + 1) ctx name =
      Run.shown ctx name (p.run (gapRun (m.routines startRule)
        (runRule (m.routines startRule) length depth))
        (runRule (m.routines startRule) length depth) { ctx with atomicity := .atomic }) := by
  funext st
  rw [runRule, builtinRun?_eq_none (h.notMem_reserved hn), hr]
  rfl

variable (hv : m.IsValid)

include hv

theorem runRule_deduction {elements : List Element} (hb : n.body = .deduction elements) :
    runRule (m.routines startRule) length (depth + 1) ctx name =
      Run.shown ctx name ((Plan.sequenceOf (elements.map Element.target)).run
        (gapRun (m.routines startRule) (runRule (m.routines startRule) length depth))
        (runRule (m.routines startRule) length depth) ctx) := by
  funext st
  rw [runRule, builtinRun?_eq_none (h.notMem_reserved hn), h.routineNamed?_deduction hv hn hb]
  simp only [Routine.run, h.isGap_eq_false hn, Bool.false_eq_true, if_false]

theorem runRule_union {first : String} {members : List String}
    (hb : n.body = .union (first :: members)) :
    runRule (m.routines startRule) length (depth + 1) ctx name =
      (Plan.chain true first members).run
        (gapRun (m.routines startRule) (runRule (m.routines startRule) length depth))
        (runRule (m.routines startRule) length depth) ctx := by
  funext st
  rw [runRule, builtinRun?_eq_none (h.notMem_reserved hn), h.routineNamed?_union hv hn hb]
  simp only [Routine.run, h.isGap_eq_false hn, Bool.false_eq_true, if_false]

end Model.HasRules

/-! ## Compiled parsers -/

/-- The shapes of a model. -/
def Model.shapes (m : Model) : List (String × Shape) := m.rules.map fun r => (r.name, r.shape)

theorem compileGrammar_eq_ok {text : String} {rules : List Rule}
    (h : compileGrammar text = .ok rules) :
    ∃ ds, readGrammar text.toList = .ok ds ∧ grammarFaults text.toList ds = [] ∧
      rules = ds.map Definition.rule := by
  unfold compileGrammar at h
  split at h
  · cases h
  · rename_i ds hds
    split at h
    · rename_i hfaults
      split at h
      · cases h
      · cases h
        exact ⟨ds, hds, hfaults, rfl⟩
    · split at h
      · cases h
      · cases h

theorem generateGrammar_eq_done {m : Model} {c : GrammarConfig} {g : Grammar}
    {warnings : List String} (h : generateGrammar m c = .done g warnings) :
    m.IsValid ∧ m.IsNamed c.startRule ∧
      g.source = ⟨grammarText m c m.rules, c.startRule, m.shapes⟩ := by
  rw [generateGrammar] at h
  split at h
  · cases h
  · rename_i hfaults
    split at h
    · rename_i hrules
      cases h
      exact ⟨Model.faults_eq_nil_iff.1 (not_not.1 hfaults), Model.isNamed_of_ruleFaults hrules, rfl⟩
    · cases h

theorem compile_eq_ok {g : GrammarSource} {serial : Nat} {p : CompiledParser}
    (h : g.compile serial = .ok p) :
    ∃ rules, compileGrammar g.text = .ok rules ∧ p.startRule = g.startRule ∧
      p.routines = planGrammar rules ∧ p.shapes = .ofList g.shapes := by
  unfold GrammarSource.compile at h
  split at h
  · rename_i rules hrules
    cases h
    exact ⟨rules, hrules, rfl, rfl, rfl⟩
  · cases h
  · cases h

/-- A rule that no grammar has is one of characters, or gives no answer. -/
theorem runRule_eq_char {routines : List Routine} {length : Nat} {ctx : Context} {name : String}
    (hbuiltin : builtinRun? length ctx name = none) (hroutine : routineNamed? routines name = none)
    (depth : Nat) : runRule routines length (depth + 1) ctx name =
      ((unicodeClass? name).map Run.char).getD fun _ => .stuck := by
  funext st
  rw [runRule]
  simp only [hbuiltin, hroutine]
  cases unicodeClass? name <;> rfl

/-- A rule that no grammar has gives no answer, unless its name is a plain one. -/
theorem runRule_eq_stuck {routines : List Routine} {name : String}
    (hreserved : name ∉ reservedRuleNames) (hroutine : routineNamed? routines name = none)
    (hplain : ¬ IsPlainName name) (length depth : Nat) (ctx : Context) (st : State) :
    runRule routines length depth ctx name st = .stuck := by
  cases depth with
  | zero => rfl
  | succ depth =>
    rw [runRule_eq_char (builtinRun?_eq_none hreserved length ctx) hroutine,
      unicodeClass?_eq_none hplain]
    rfl

theorem name_planGrammar {rules : List Rule} {r : Routine} (h : r ∈ planGrammar rules) :
    r.name ∈ rules.map Rule.name := by
  rw [planGrammar, List.map_map] at h
  obtain ⟨q, hq, rfl⟩ := List.mem_map.1 h
  exact List.mem_map_of_mem hq

theorem map_rule_of_writes {ds : List Definition} {rules : List Rule}
    (h : List.Forall₂ Definition.Writes ds rules) : ds.map Definition.rule = rules := by
  induction h with
  | nil => rfl
  | cons hw _ ih => rw [List.map_cons, hw.rule, ih]

section Compiled

variable {m : Model} {c : GrammarConfig} {g : Grammar} {warnings : List String} {serial : Nat}
  {p : CompiledParser} (hg : generateGrammar m c = .done g warnings)

include hg

/-- The text of a grammar with a plain name for its start rule is read as the rules of its model. -/
theorem exists_writes_of_isPlainName (hname : '\n' ∉ m.name.toList)
    (hversion : '\n' ∉ m.version.toList) (hs : IsPlainName c.startRule) {ds : List Definition}
    (hds : readGrammar g.text.toList = .ok ds) :
    List.Forall₂ Definition.Writes ds (m.pegRules c.startRule) := by
  obtain ⟨hv, -, hsource⟩ := generateGrammar_eq_done hg
  rw [show g.text = grammarText m c m.rules from congrArg GrammarSource.text hsource] at hds
  have hclean := Model.isClean_of_readGrammar hv hname hversion hs hds
  obtain ⟨ds', hds', hwrites⟩ := Model.readGrammar_grammarText hv hname hversion hs hclean
  obtain rfl : ds = ds' := by
    rw [hds] at hds'
    exact Except.ok.inj hds'
  exact hwrites

/-- **A parser gives no answer** if the name of its start rule is no plain one: then no rule has
that name. -/
theorem parseWith_eq_stuck (hp : g.source.compile serial = .ok p) (hs : ¬ IsPlainName c.startRule)
    (input : List Char) : Peg.parseWith p.routines p.startRule input = .stuck := by
  obtain ⟨-, hnamed, hsource⟩ := generateGrammar_eq_done hg
  obtain ⟨rules, hrules, hstart, hroutines, -⟩ := compile_eq_ok hp
  rw [hsource] at hstart
  obtain ⟨ds, hds, -, rfl⟩ := compileGrammar_eq_ok hrules
  refine runRule_eq_stuck (hstart ▸ hnamed.start) ?_ (hstart ▸ hs) _ _ _ _
  rw [hroutines, routineNamed?, List.find?_eq_none, hstart]
  intro r hr hname
  obtain ⟨d, hd, hdr⟩ := List.mem_map.1 (List.map_map ▸ name_planGrammar hr)
  refine hs ?_
  have hplain := isPlainName_of_readGrammar hds d hd
  rwa [show d.name = c.startRule from hdr.trans (by simpa using hname)] at hplain

/-- **A compiled parser runs the routines of its model**, unless no rule has the name of its start
rule: then it gives no answer. -/
theorem compile_routines (hname : '\n' ∉ m.name.toList) (hversion : '\n' ∉ m.version.toList)
    (hp : g.source.compile serial = .ok p) :
    p.routines = m.routines c.startRule ∨
      ∀ input, Peg.parseWith p.routines p.startRule input = .stuck := by
  by_cases hs : IsPlainName c.startRule
  · left
    obtain ⟨rules, hrules, -, hroutines, -⟩ := compile_eq_ok hp
    obtain ⟨ds, hds, -, rfl⟩ := compileGrammar_eq_ok hrules
    have hwrites := exists_writes_of_isPlainName hg hname hversion hs hds
    rw [hroutines, map_rule_of_writes hwrites, Model.routines]
  · exact .inr (parseWith_eq_stuck hg hp hs)

end Compiled

end GrammarKit
