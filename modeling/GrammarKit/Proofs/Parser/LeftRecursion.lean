import GrammarKit.Proofs.Grammar.Reading
import GrammarKit.Proofs.Parser.Termination
import GrammarKit.Proofs.Peg.Recursion

/-!
# Left recursion, as it is told and as it is refused

When a grammar is generated, its left-recursive rules are told from the model; when it is compiled,
they are searched in the rules that were read. Both look at the names that can come first. In front
of them there may be nodes that match the empty text only, and the checks know these nodes, be they
left-recursive or not.

* `Term.mem_leads_row`, `Term.leads_choice`: what can come first in rows of names.
* `Model.HasRules.leadsTo_of_canStart`, `canStart_of_leadsTo`: what can come first in a node.
* **`Model.HasRules.exists_transGen_iff`**: a rule comes back to itself exactly if some node is
  left-recursive.
* **`refusedAsLeftRecursive_iff`**: what a compiler says to a generated grammar.
-/

namespace GrammarKit

open Peg
open Relation (TransGen)

/-! ## What can come first in rows of names -/

namespace Peg.Term

variable {ds : List Definition} {here : List String}

theorem leads_choice (first : String) (names : List String) :
    (ofExpr (.row true first names)).leads ds here = first :: names := by
  have hfoldl (e : Expr) (names : List String) :
      (ofExpr ((names.map .ref).foldl (Expr.link true) e)).leads ds here =
        (ofExpr e).leads ds here ++ names := by
    induction names generalizing e with
    | nil => exact (List.append_nil _).symm
    | cons name names ih =>
      rw [List.map_cons, List.foldl_cons, ih]
      exact List.append_assoc _ [name] names
  exact hfoldl (.ref first) names

theorem mem_leads_row {first y : String} {names : List String} :
    y ∈ (ofExpr (.row false first names)).leads ds here ↔
      y = first ∨ ∃ front back, names = front ++ y :: back ∧
        passes ds here (.row false first front) = true := by
  induction names using List.reverseRecOn with
  | nil => simp [Expr.row, ofExpr, leads]
  | append_singleton names last ih =>
    have hrow : Expr.row false first (names ++ [last]) =
        .seq (.row false first names) (.ref last) := by
      rw [Expr.row, List.map_append, List.foldl_append]
      rfl
    -- what is behind `y` is nothing, or it ends with `last`
    have hsplit (front : List String) : (∃ back, names ++ [last] = front ++ y :: back) ↔
        (∃ back, names = front ++ y :: back) ∨ y = last ∧ front = names := by
      constructor
      · rintro ⟨back, hback⟩
        rcases List.eq_nil_or_concat back with rfl | ⟨back, z, rfl⟩
        · obtain ⟨rfl, hlast⟩ := List.append_inj' hback rfl
          exact .inr ⟨(List.cons.inj hlast).1.symm, rfl⟩
        · rw [List.concat_eq_append, ← List.cons_append, ← List.append_assoc] at hback
          exact .inl ⟨back, (List.append_inj' hback rfl).1⟩
      · rintro (⟨back, rfl⟩ | ⟨rfl, rfl⟩)
        · exact ⟨back ++ [last], by simp⟩
        · exact ⟨[], rfl⟩
    have hleads : y ∈ (ofExpr (.row false first (names ++ [last]))).leads ds here ↔
        y ∈ (ofExpr (.row false first names)).leads ds here ∨
          passes ds here (.row false first names) = true ∧ y = last := by
      rw [hrow, ofExpr, leads, expr_ofExpr]
      split
      · rename_i hpasses
        rw [List.mem_append, and_iff_right hpasses]
        exact or_congr_right List.mem_singleton
      · rename_i hpasses
        rw [or_iff_left fun h => hpasses h.1]
    rw [hleads, ih, or_assoc]
    refine or_congr_right ⟨?_, ?_⟩
    · rintro (⟨front, back, hback, hpasses⟩ | ⟨hpasses, rfl⟩)
      · obtain ⟨back, hback⟩ := (hsplit front).2 (.inl ⟨back, hback⟩)
        exact ⟨front, back, hback, hpasses⟩
      · exact ⟨names, [], rfl, hpasses⟩
    · rintro ⟨front, back, hback, hpasses⟩
      obtain ⟨back, hback⟩ | ⟨rfl, rfl⟩ := (hsplit front).1 ⟨back, hback⟩
      · exact .inl ⟨front, back, hback, hpasses⟩
      · exact .inr ⟨hpasses, rfl⟩

/-- In a token, only classes of characters can come first. -/
theorem leads_of_isLexical {e : Expr} (h : e.IsLexical) :
    ∀ y ∈ (ofExpr e).leads ds here, y = "ASCII" ∨ y = "ANY" := by
  induction e with
  | ref name => exact fun y hy => List.mem_singleton.1 hy ▸ h
  | text | range => exact fun y hy => absurd hy List.not_mem_nil
  | notAhead body =>
    obtain rfl : body = .ref "ASCII" := h
    exact fun y hy => .inl (List.mem_singleton.1 hy)
  | repeated body times ih => exact ih h
  | seq left right ihl ihr =>
    intro y hy
    rw [ofExpr, leads] at hy
    split at hy
    · exact (List.mem_append.1 hy).elim (ihl h.1 y) (ihr h.2 y)
    · exact ihl h.1 y hy
  | choice left right ihl ihr =>
    exact fun y hy => (List.mem_append.1 hy).elim (ihl h.1 y) (ihr h.2 y)
  | anyCase | peek | push | ahead => exact h.elim

end Peg.Term

/-! ## What can come first in nodes -/

/-- What is behind elements that do not match the empty text cannot come first. -/
theorem Model.exists_of_mem_leadingTargets {nullable names : List String} {x : String}
    (h : x ∈ leadingTargets nullable names) :
    ∃ front back, names = front ++ x :: back ∧ ∀ y ∈ front, y ∈ nullable := by
  induction names with
  | nil => cases h
  | cons y names ih =>
    rw [leadingTargets] at h
    split at h
    · rename_i hy
      rcases List.mem_cons.1 h with rfl | h
      · exact ⟨[], names, rfl, List.forall_mem_nil _⟩
      · obtain ⟨front, back, rfl, hfront⟩ := ih h
        exact ⟨y :: front, back, rfl, List.forall_mem_cons.2 ⟨hy, hfront⟩⟩
    · obtain rfl := List.mem_singleton.1 h
      exact ⟨[], names, rfl, List.forall_mem_nil _⟩

namespace Model.HasRules

variable {m : Model} {startRule : String} (h : m.HasRules startRule)

include h

/-- **The checks pass over elements that match the empty text.** They do not look into the rule `x`
that they are in, but they need not: if `x` matches the empty text, its elements do so without it. -/
theorem passes_row {x : String} {n : Node} {elements : List Element} (hn : m.node? x = some n)
    (hb : n.body = .deduction elements) {first : String} {front : List String}
    (hsub : first :: front ⊆ elements.map Element.target)
    (hnull : ∀ y ∈ first :: front, y ∈ m.nullable) :
    passes ((m.pegRules startRule).map .ofRule) [x] (.row false first front) = true := by
  have hfounded : m.IsFounded m.nullable := isFounded_nullable
  have hbefore {y : String} (hy : y ∈ first :: front) :
      ∃ f b, m.nullable = f ++ y :: b ∧ x ∉ f ++ [y] := by
    by_cases hx : x ∈ m.nullable
    · obtain ⟨f, b, hsplit⟩ := List.append_of_mem hx
      obtain ⟨k, hk, hempty⟩ := hfounded.founded f x b hsplit
      rw [hn] at hk
      cases hk
      rw [hb] at hempty
      obtain ⟨e, he, rfl⟩ := List.mem_map.1 (hsub hy)
      obtain ⟨f, g, rfl⟩ := List.append_of_mem (show e.target ∈ f from hempty e he)
      refine ⟨f, g ++ x :: b, by simp [hsplit], fun hmem => ?_⟩
      have hnodup := hfounded.nodup
      rw [hsplit, List.append_cons f] at hnodup
      have happ := (List.nodup_append.1 hnodup).2.2
      exact happ x (List.mem_append_left _ hmem) x List.mem_cons_self rfl
    · obtain ⟨f, b, hsplit⟩ := List.append_of_mem (hnull y hy)
      refine ⟨f, b, hsplit, fun hmem => hx ?_⟩
      rw [hsplit, List.append_cons]
      exact List.mem_append_left _ hmem
  refine Bool.or_eq_true_iff.2 (.inr ?_)
  rw [standsStill, stillFrom, Bool.not_eq_true', List.isEmpty_eq_false_iff]
  refine Expr.stillWith_row_ne_nil (fun y hy r => ?_) _
  obtain ⟨f, b, hsplit, hx⟩ := hbefore hy
  rw [Expr.stillWith_ref (h.unreserved y (hfounded.subset_names (hnull y hy)))]
  exact h.throughRules_ne_nil hsplit (h.length_front_lt hsplit)
    (List.forall_mem_singleton.2 hx) r

/-- **What can come first in a node can come first for the checks.** -/
theorem leadsTo_of_canStart {x y : String} (hstart : m.CanStart y x) :
    LeadsTo ((m.pegRules startRule).map .ofRule) x y := by
  obtain ⟨n, hn, hy, -⟩ := hstart
  obtain ⟨q, hq, hbody⟩ := h.bodyOf?_node hn
  refine ⟨_, hbody, ?_⟩
  rw [firstIn] at hy
  cases hb : n.body with
  | token pattern =>
    rw [hb] at hy
    cases hy
  | deduction elements =>
    rw [hb] at hy
    obtain ⟨front, back, hrow, hfront⟩ :=
      exists_of_mem_leadingTargets (List.mem_of_mem_filter (mem_distinct.1 hy))
    rw [NodeRule.body_deduction hq hb, hrow]
    cases front with
    | nil =>
      rw [List.nil_append, Expr.sequence_refs]
      exact Term.mem_leads_row.2 (.inl rfl)
    | cons first front =>
      rw [List.cons_append, Expr.sequence_refs]
      refine Term.mem_leads_row.2 (.inr ⟨front, back, rfl, h.passes_row hn hb ?_ hfront⟩)
      rw [hrow]
      exact List.subset_append_left _ _
  | union members =>
    rw [hb] at hy
    have hmem : y ∈ members := List.mem_of_mem_filter (mem_distinct.1 hy)
    rw [NodeRule.body_union hq hb]
    cases members with
    | nil => cases hmem
    | cons first members =>
      rw [Expr.firstOf_refs, Term.leads_choice]
      exact hmem

variable (hv : m.IsValid)

include hv

/-- The checks pass over no other elements, if no rule takes the place of the classes of characters
that tokens use. -/
theorem nullable_of_passes (hascii : startRule ≠ "ASCII") (hany : startRule ≠ "ANY")
    {here : List String} {first : String} {front : List String}
    (hnames : ∀ y ∈ first :: front, y ∈ m.names)
    (hpasses : passes ((m.pegRules startRule).map .ofRule) here (.row false first front) = true) :
    ∀ y ∈ first :: front, y ∈ m.nullable := by
  rw [passes, ← Expr.sequence_refs] at hpasses
  intro y hy
  rcases Bool.or_eq_true_iff.1 hpasses with hcannot | hstill
  · have hfinds := probes_cannotFail.finds_of_sequence hcannot y hy
    exact probes_cannotFail.mem_nullable h hv hascii hany (hnames y hy) hfinds
  · rw [standsStill, stillFrom, Bool.not_eq_true', List.isEmpty_eq_false_iff] at hstill
    have hfinds := probes_stillWith.finds_of_sequence ⟨_, hstill⟩ y hy
    rw [probes_stillWith.ref (h.unreserved y (hnames y hy))] at hfinds
    exact probes_stillWith.mem_nullable h hv hascii hany (hnames y hy) hfinds

/-- What can come first for the checks can come first in a node. -/
theorem canStart_of_leadsTo (hascii : startRule ≠ "ASCII") (hany : startRule ≠ "ANY")
    {x y : String} (hx : x ∈ m.names) (hy : y ∈ m.names)
    (hleads : LeadsTo ((m.pegRules startRule).map .ofRule) x y) : m.CanStart y x := by
  obtain ⟨n, hn⟩ := has_iff_node?.1 (has_iff.2 hx)
  obtain ⟨q, hq, hbody⟩ := h.bodyOf?_node hn
  obtain ⟨body, hbody', hmem⟩ := hleads
  rw [hbody] at hbody'
  cases hbody'
  cases hb : n.body with
  | token pattern =>
    have hreserved := h.unreserved y hy
    rcases Term.leads_of_isLexical (NodeRule.isLexical_token hq hb).1 y hmem with rfl | rfl
    · exact absurd (by decide) hreserved
    · exact absurd (by decide) hreserved
  | deduction elements =>
    rw [NodeRule.body_deduction hq hb] at hmem
    cases hrow : elements.map Element.target with
    | nil =>
      rw [hrow] at hmem
      cases hmem
    | cons first names =>
      rw [hrow, Expr.sequence_refs, Term.mem_leads_row] at hmem
      rcases hmem with rfl | ⟨front, back, rfl, hpasses⟩
      · exact canStart_of_deduction hn hb hrow (List.forall_mem_nil _) hy
      · refine canStart_of_deduction hn hb (hrow.trans (List.cons_append ..).symm) ?_ hy
        refine h.nullable_of_passes hv hascii hany (fun z hz => ?_) hpasses
        refine has_iff.1 (hv.references hn z ?_)
        rw [Node.references, hb]
        show z ∈ elements.map Element.target
        rw [hrow]
        exact List.mem_append_left _ hz
  | union members =>
    rw [NodeRule.body_union hq hb] at hmem
    obtain ⟨first, members, rfl⟩ := List.exists_cons_of_ne_nil (hv.members hn hb)
    rw [Expr.firstOf_refs, Term.leads_choice] at hmem
    exact canStart_of_union hn hb hmem hy

/-- Nodes, the ends of the text and classes of characters are what can come first. -/
theorem mem_of_leadsTo {x y : String}
    (hleads : LeadsTo ((m.pegRules startRule).map .ofRule) x y) :
    y ∈ m.names ∨ y = "ASCII" ∨ y ∈ keywords := by
  have hx := hleads.mem_names
  rw [map_name_ofRule, h.map_name_pegRules] at hx
  obtain ⟨body, hbody, hmem⟩ := hleads
  have hrule {r : Rule} (hr : r ∈ m.pegRules startRule) (hname : r.name = x) :
      body = .ofExpr r.body := by
    rw [← hname, bodyOf?_ofRule h.nodup_pegRules hr] at hbody
    exact (Option.some.inj hbody).symm
  rcases List.mem_cons.1 hx with rfl | hx
  · rw [hrule (r := blanksPegRule) List.mem_cons_self rfl] at hmem
    cases hmem
  rcases List.mem_cons.1 hx with rfl | hx
  · rw [hrule (r := startPegRule x m.start) (List.mem_cons_of_mem _ List.mem_cons_self) rfl] at hmem
    have hstart : m.start ∈ m.names := has_iff.1 hv.start
    have hrow : (startPegRule x m.start).body = .row false "SOI" [m.start, "EOI"] :=
      Expr.sequence_refs "SOI" [m.start, "EOI"]
    rw [hrow, Term.mem_leads_row] at hmem
    rcases hmem with rfl | ⟨front, back, hback, -⟩
    · exact .inr (.inr (by decide))
    · have hy : y ∈ [m.start, "EOI"] := hback ▸ List.mem_append_right _ List.mem_cons_self
      rcases List.mem_pair.1 hy with rfl | rfl
      · exact .inl hstart
      · exact .inr (.inr (by decide))
  · obtain ⟨n, hn⟩ := has_iff_node?.1 (has_iff.2 hx)
    obtain ⟨q, hq, hbody'⟩ := h.bodyOf?_node hn
    rw [hbody] at hbody'
    cases hbody'
    have href : ∀ y ∈ n.references, y ∈ m.names := fun y hy => has_iff.1 (hv.references hn y hy)
    rw [Node.references] at href
    cases hb : n.body with
    | token pattern =>
      rcases Term.leads_of_isLexical (NodeRule.isLexical_token hq hb).1 y hmem with rfl | rfl
      · exact .inr (.inl rfl)
      · exact .inr (.inr (by decide))
    | deduction elements =>
      rw [hb] at href
      rw [NodeRule.body_deduction hq hb] at hmem
      refine .inl (href y ?_)
      show y ∈ elements.map Element.target
      cases hrow : elements.map Element.target with
      | nil =>
        rw [hrow] at hmem
        cases hmem
      | cons first names =>
        rw [hrow, Expr.sequence_refs, Term.mem_leads_row] at hmem
        rcases hmem with rfl | ⟨front, back, rfl, -⟩
        · exact List.mem_cons_self
        · simp
    | union members =>
      rw [hb] at href
      rw [NodeRule.body_union hq hb] at hmem
      obtain ⟨first, members, rfl⟩ := List.exists_cons_of_ne_nil (hv.members hn hb)
      rw [Expr.firstOf_refs, Term.leads_choice] at hmem
      exact .inl (href y hmem)

/-! ## Ways back -/

/-- **Only left-recursive nodes come back to themselves**: a rule on the way back can come first in
another one, and another one can come first in it. -/
theorem transGen_of_leadsTo (hascii : startRule ≠ "ASCII") (hkeyword : startRule ∉ keywords)
    {x : String}
    (hcycle : TransGen (LeadsTo ((m.pegRules startRule).map .ofRule)) x x) :
    TransGen (fun a b => m.CanStart b a) x x := by
  have hnode {u v w : String} (huv : LeadsTo ((m.pegRules startRule).map .ofRule) u v)
      (hvw : LeadsTo ((m.pegRules startRule).map .ofRule) v w) : v ∈ m.names := by
    rcases h.mem_of_leadsTo hv huv with hmem | hmem
    · exact hmem
    · have hrule := hvw.mem_names
      rw [map_name_ofRule, h.map_name_pegRules, List.mem_cons, List.mem_cons] at hrule
      rcases hrule with rfl | rfl | hrule
      · exact absurd hmem (by decide)
      · exact (hmem.elim hascii hkeyword).elim
      · exact hrule
  have hany : startRule ≠ "ANY" := by
    rintro rfl
    exact hkeyword (by decide)
  obtain ⟨y, hxy, -⟩ := TransGen.head'_iff.1 hcycle
  obtain ⟨z, -, hzx⟩ := TransGen.tail'_iff.1 hcycle
  have hx : x ∈ m.names := hnode hzx hxy
  have hway {u : String} (hu : u ∈ m.names)
      (hux : TransGen (LeadsTo ((m.pegRules startRule).map .ofRule)) u x) :
      TransGen (fun a b => m.CanStart b a) u x := by
    induction hux using TransGen.head_induction_on with
    | single hux => exact .single (h.canStart_of_leadsTo hv hascii hany hu hx hux)
    | head huv hvx ih =>
      obtain ⟨w, hvw, -⟩ := TransGen.head'_iff.1 hvx
      have hmem := hnode huv hvw
      exact .head (h.canStart_of_leadsTo hv hascii hany hu hmem huv) (ih hmem)
  exact hway hx hcycle

omit hv in
/-- Left-recursive nodes come back to themselves. -/
theorem exists_leadsTo_of_leftRecursive (hrec : m.leftRecursive ≠ []) :
    ∃ d ∈ (m.pegRules startRule).map Definition.ofRule,
      TransGen (LeadsTo ((m.pegRules startRule).map .ofRule)) d.name d.name := by
  obtain ⟨x, hcycle⟩ : ∃ x, TransGen (fun a b => m.CanStart b a) x x := by
    by_contra hno
    exact hrec (leftRecursive_eq_nil_iff.2 (not_exists.1 hno))
  have hback := TransGen.mono (fun _ _ hstart => h.leadsTo_of_canStart hstart) _ _ hcycle
  obtain ⟨y, hxy, -⟩ := TransGen.head'_iff.1 hback
  obtain ⟨d, hd, rfl⟩ := List.mem_map.1 hxy.mem_names
  exact ⟨d, hd, hback⟩

end Model.HasRules

/-! ## Refusals -/

namespace Peg

/-- Without faults of names and of parts, the faults are those of expressions. -/
theorem grammarFaults_eq_runFaults {ds : List Definition} (hnames : nameFaults ds = [])
    (hvalues : valueFault? ds = none) (source : List Char) :
    grammarFaults source ds = runFaults source ds := by
  rw [grammarFaults, hnames, hvalues]

theorem map_name_of_bare {ds : List Definition} {rules : List Rule}
    (hbare : ds.map Definition.bare = rules.map .ofRule) :
    ds.map Definition.name = rules.map Rule.name := by
  rw [← map_name_ofRule, ← hbare, List.map_map]
  rfl

/-- Whether left recursion is among the faults does not depend on places. -/
theorem exists_leftRecursive_iff_bare (source : List Char) (ds : List Definition) :
    (∃ f ∈ runFaults source ds, f.1.isLeftRecursive = true) ↔
      ∃ d ∈ ds.map Definition.bare,
        TransGen (LeadsTo (ds.map Definition.bare)) d.name d.name := by
  have hsome (d : Definition) : (leftRecursion? (ds.map Definition.bare) d.bare).isSome =
      (leftRecursion? ds d).isSome := by
    rw [← Option.isSome_map (f := Prod.snd), leftRecursion?_bare, Option.isSome_map]
  rw [exists_leftRecursive_iff]
  simp only [← leftRecursion?_isSome_iff, List.mem_map, exists_exists_and_eq_and, hsome]

end Peg

/-- **A grammar is refused as left-recursive** if it can be read, but is refused for its faults, and
left recursion is among them. -/
def GrammarSource.RefusedAsLeftRecursive (g : GrammarSource) (serial : Nat) : Prop :=
  ∃ ds, readGrammar g.text.toList = .ok ds ∧
    g.compile serial = .error (.refused ((grammarFaults g.text.toList ds).map fun f =>
      (Report.ofFinding f).render g.text.toList)) ∧
    ∃ f ∈ grammarFaults g.text.toList ds, f.1.isLeftRecursive = true

section Refused

variable {m : Model} {c : GrammarConfig} {g : Grammar} {warnings : List String}
  (hname : '\n' ∉ m.name.toList) (hversion : '\n' ∉ m.version.toList)
  (hg : generateGrammar m c = .done g warnings)

/-- A grammar with faults of expressions only is refused as left-recursive exactly if left recursion
is among them. -/
theorem GrammarSource.refusedAsLeftRecursive_iff_runFaults (g : GrammarSource)
    {ds : List Definition} (hds : readGrammar g.text.toList = .ok ds)
    (hfaults : grammarFaults g.text.toList ds = runFaults g.text.toList ds) (serial : Nat) :
    g.RefusedAsLeftRecursive serial ↔
      ∃ f ∈ runFaults g.text.toList ds, f.1.isLeftRecursive = true := by
  constructor
  · rintro ⟨ds', hds', -, hrec⟩
    rw [hds] at hds'
    cases hds'
    rwa [hfaults] at hrec
  · intro hrec
    refine ⟨ds, hds, ?_, hfaults ▸ hrec⟩
    have hfatal : ((runFaults g.text.toList ds).any fun f => f.1.isFatal) = false :=
      List.any_eq_false.2 fun f hf => by simp [isFatal_of_mem_runFaults hf]
    obtain ⟨f, hf, -⟩ := hrec
    obtain ⟨first, more, hcons⟩ := List.exists_cons_of_ne_nil (List.ne_nil_of_mem hf)
    rw [hcons] at hfaults hfatal
    unfold compile compileGrammar
    simp only [hds, hfaults, hfatal, Bool.false_eq_true, if_false]

include hname hversion hg

/-- The rules that are read of a generated grammar, if their names are in order. -/
theorem exists_hasRules {ds : List Definition} (hds : readGrammar g.text.toList = .ok ds)
    (hnames : nameFaults ds = []) :
    ∃ startRule, m.HasRules startRule ∧ startRule ∉ keywords ∧
      ds.map Definition.bare = (m.pegRules startRule).map .ofRule := by
  obtain ⟨hv, hnamed, hsource⟩ := generateGrammar_eq_done hg
  rw [show g.text = grammarText m c m.rules from congrArg GrammarSource.text hsource] at hds
  obtain ⟨startRule, hwrites⟩ := Model.exists_writes_of_readGrammar hv hname hversion
    (generateGrammar_eq_done_left hg).1 hds
  have hbare := map_bare_of_writes hwrites Model.isSound_pegRules
  obtain ⟨hnodup, hkeywords⟩ := names_of_nameFaults ((nameFaults_bare ds).2 hnames)
  rw [hbare] at hnodup hkeywords
  have hstart : startPegRule startRule m.start ∈ m.pegRules startRule :=
    List.mem_cons_of_mem _ List.mem_cons_self
  exact ⟨startRule, hnamed.hasRules (map_name_ofRule _ ▸ hnodup),
    hkeywords _ (List.mem_map_of_mem hstart), hbare⟩

/-- **A grammar that gives a parser has no left-recursive nodes.** -/
theorem leftRecursive_eq_nil_of_compile {serial : Nat} {p : CompiledParser}
    (hp : g.source.compile serial = .ok p) : m.leftRecursive = [] := by
  obtain ⟨rules, hrules, -⟩ := compile_eq_ok hp
  obtain ⟨ds, hds, hfaults, -⟩ := compileGrammar_eq_ok hrules
  obtain ⟨startRule, hrules, -, hbare⟩ :=
    exists_hasRules hname hversion hg hds (nameFaults_of_grammarFaults hfaults)
  by_contra hrec
  have hback := hrules.exists_leadsTo_of_leftRecursive hrec
  rw [← hbare, ← exists_leftRecursive_iff_bare g.text.toList] at hback
  obtain ⟨f, hf, -⟩ := hback
  exact List.not_mem_nil (runFaults_of_grammarFaults hfaults ▸ hf)

/-- **Left recursion is told exactly where a compiler finds it**, as long as the start rule does not
take the name of the class of characters that tokens use. A grammar with rules that are told to be
left-recursive is refused for it, whatever the start rule, and never gives a parser. -/
theorem refusedAsLeftRecursive_iff :
    (g.stats.leftRecursiveRules ≠ [] → ∀ serial p, g.source.compile serial ≠ .ok p) ∧
      ∀ ds, readGrammar g.text.toList = .ok ds → nameFaults ds = [] → ∀ serial,
        (g.stats.leftRecursiveRules ≠ [] → g.source.RefusedAsLeftRecursive serial) ∧
          ("ASCII" ∉ ds.map Definition.name →
            (g.source.RefusedAsLeftRecursive serial ↔ g.stats.leftRecursiveRules ≠ [])) := by
  obtain ⟨hv, -, -⟩ := generateGrammar_eq_done hg
  rw [(generateGrammar_eq_done_left hg).2]
  refine ⟨fun hrec serial p hp => hrec (leftRecursive_eq_nil_of_compile hname hversion hg hp),
    fun ds hds hnames serial => ?_⟩
  obtain ⟨startRule, hrules, hkeyword, hbare⟩ := exists_hasRules hname hversion hg hds hnames
  have hfaults := grammarFaults_eq_runFaults hnames (valueFault?_of_bare hbare) g.text.toList
  rw [g.source.refusedAsLeftRecursive_iff_runFaults hds hfaults, exists_leftRecursive_iff_bare,
    hbare]
  refine ⟨hrules.exists_leadsTo_of_leftRecursive, fun hascii =>
    ⟨?_, hrules.exists_leadsTo_of_leftRecursive⟩⟩
  rintro ⟨d, -, hback⟩ hnil
  refine Model.leftRecursive_eq_nil_iff.1 hnil _
    (hrules.transGen_of_leadsTo hv (fun hs => hascii ?_) hkeyword hback)
  rw [map_name_of_bare hbare, ← hs]
  exact List.mem_cons_of_mem _ List.mem_cons_self

end Refused

/-- Sums of words: what is added to may have a sign in front, which may be left out. -/
def Model.sums : Model :=
  (((((new "Sums" "Term").insert "Word" (.token (.regex "[a-z]+"))).insert "Plus"
    (.token (.literal "+"))).insert "Sign" (.token (.regex "-?"))).insert "Term"
      (.union ["Sum", "Word"])).insert "Sum"
        (.deduction [⟨"Sign", none⟩, ⟨"Term", some "left"⟩, ⟨"Plus", none⟩, ⟨"Word", some "right"⟩])

/-- The grammar of sums is told to be left-recursive, and refused for it. -/
theorem refusedAsLeftRecursive_sums : ∃ g warnings ds,
    generateGrammar .sums {} = .done g warnings ∧ readGrammar g.text.toList = .ok ds ∧
      nameFaults ds = [] ∧ "ASCII" ∉ ds.map Definition.name ∧
      g.stats.leftRecursiveRules ≠ [] ∧ g.source.RefusedAsLeftRecursive 0 := by
  obtain ⟨g, hg, -⟩ := Model.exists_grammar_of_ruleFaults (m := .sums) (c := {})
    (by decide +kernel) (Model.ruleFaults_eq_nil_of_isOpenName (by decide +kernel)
      (by decide +kernel) (by decide +kernel))
  obtain ⟨hv, -, -⟩ := generateGrammar_eq_done hg
  obtain ⟨ds, hds, hwrites⟩ := Model.readGrammar_grammarText (c := {}) hv (by decide) (by decide)
    (isPlainName_of_isIdentifier (by decide)) (by decide +kernel)
  rw [← (generateGrammar_eq_done_rules hg).1] at hds
  have hbare := map_bare_of_writes hwrites Model.isSound_pegRules
  have hnames : nameFaults ds = [] := by
    rw [← nameFaults_bare, hbare]
    decide +kernel
  have hascii : "ASCII" ∉ ds.map Definition.name := by
    rw [map_name_of_bare hbare]
    decide +kernel
  have hrec : g.stats.leftRecursiveRules ≠ [] := by
    rw [(generateGrammar_eq_done_left hg).2]
    -- the sign in front of a term may be left out
    have hterm : Model.sums.CanStart "Term" "Sum" := ⟨_, rfl, by decide +kernel, by decide +kernel⟩
    have hsum : Model.sums.CanStart "Sum" "Term" := ⟨_, rfl, by decide +kernel, by decide +kernel⟩
    exact fun hnil => Model.leftRecursive_eq_nil_iff.1 hnil "Sum" (.head hterm (.single hsum))
  have hrefused := (refusedAsLeftRecursive_iff (by decide) (by decide) hg).2 ds hds hnames 0
  exact ⟨g, _, ds, hg, hds, hnames, hascii, hrec, (hrefused.2 hascii).2 hrec⟩

/-- Words of any letter but one. -/
def Model.otherWord : Model := (new "Words" "Word").insert "Word" (.token (.regex "[^a]"))

/-- A start rule with a blank in front of its name takes the place of a class of characters: then a
compiler finds left recursion where none is told. -/
theorem exists_refusedAsLeftRecursive : ∃ g warnings ds,
    generateGrammar .otherWord { startRule := " ASCII" } = .done g warnings ∧
      readGrammar g.text.toList = .ok ds ∧ nameFaults ds = [] ∧
      g.stats.leftRecursiveRules = [] ∧ g.source.RefusedAsLeftRecursive 0 := by
  have hident : Code.isIdentifier (" " ++ "ASCII") = true :=
    Code.isIdentifier_blank (by decide) (by decide)
  obtain ⟨g, hg, -⟩ := Model.exists_grammar_of_ruleFaults (m := .otherWord)
    (c := { startRule := " ASCII" }) (by decide +kernel)
    (Model.ruleFaults_eq_nil_of_isIdentifier hident (by decide) (by decide +kernel)
      (by decide +kernel) (by decide +kernel))
  have hrec : Model.otherWord.leftRecursive = [] :=
    Model.leftRecursive_eq_nil_of_rank (fun _ => 0) (by decide +kernel)
  obtain ⟨hv, -, -⟩ := generateGrammar_eq_done hg
  have htext := (generateGrammar_eq_done_rules hg).1
  obtain ⟨ds, hds, hmap⟩ : ∃ ds, readGrammar g.text.toList = .ok ds ∧
      ds.map Definition.name = ["WHITESPACE", "ASCII", "Word"] := by
    have hread : (readGrammar g.text.toList).toOption.map (List.map Definition.name) =
        some ["WHITESPACE", "ASCII", "Word"] := by
      rw [htext]
      decide +kernel
    cases hds : readGrammar g.text.toList with
    | error a =>
      rw [hds] at hread
      cases hread
    | ok ds =>
      rw [hds] at hread
      exact ⟨ds, rfl, Option.some.inj hread⟩
  obtain ⟨startRule, hwrites⟩ := Model.exists_writes_of_readGrammar
    (c := { startRule := " ASCII" }) hv (by decide) (by decide) hident (htext ▸ hds)
  have hbare := map_bare_of_writes hwrites Model.isSound_pegRules
  obtain rfl : startRule = "ASCII" := by
    rw [map_name_of_bare hbare] at hmap
    exact (List.cons.inj (List.cons.inj hmap).2).1
  have hnames : nameFaults ds = [] := by
    rw [← nameFaults_bare, hbare]
    decide +kernel
  refine ⟨g, _, ds, hg, hds, hnames, (generateGrammar_eq_done_left hg).2.trans hrec, ?_⟩
  rw [g.source.refusedAsLeftRecursive_iff_runFaults hds
    (grammarFaults_eq_runFaults hnames (valueFault?_of_bare hbare) _),
    exists_leftRecursive_iff_bare, hbare]
  refine ⟨.ofRule (startPegRule "ASCII" "Word"), List.mem_cons_of_mem _ List.mem_cons_self, ?_⟩
  rw [← leftRecursion?_isSome_iff]
  decide +kernel

end GrammarKit
