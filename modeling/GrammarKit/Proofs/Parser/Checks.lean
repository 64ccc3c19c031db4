import GrammarKit.Proofs.Parser.Acceptance
import GrammarKit.Proofs.Parser.Passing

/-!
# What the checks on the grammar of a model grant

A grammar text that is accepted holds rules of distinct names, whose tokens get on in all of their
loops. If its comments are the start rule, then the start node does not match the empty text, since
the checks know the nodes that do.

* `names_of_nameFaults`, `blanksFault?_of_grammarFaults`: what the checks grant of any rules.
* **`Model.IsWritten`**: rules that were written for a model and have passed the checks.
* **`Model.IsWritten.settles_rule`**: all of them have an answer on every text.
-/

namespace GrammarKit

open Peg

namespace Model.HasRules

variable {m : Model} {startRule : String} (h : m.HasRules startRule) (hv : m.IsValid)

include h hv

/-- Where the start rule stands for comments, the start node does not match the empty text. -/
theorem notMem_nullable_of_blanksFault? (hs : startRule = "COMMENT")
    (hfault : blanksFault? ((m.pegRules startRule).map .ofRule)
      (.ofRule (startPegRule startRule m.start)) = none) : m.start ∉ m.nullable := by
  intro hnull
  have hstart : m.start ∈ m.names := has_iff.1 hv.start
  obtain ⟨front, back, hsplit⟩ := List.append_of_mem hnull
  rw [blanksFault?, if_pos (.inr hs)] at hfault
  split at hfault
  · cases hfault
  · rw [if_pos] at hfault
    · cases hfault
    · rw [standsStill, stillFrom, Bool.not_eq_true', List.isEmpty_eq_false_iff]
      show (Term.ofExpr (Expr.sequence (["SOI", m.start, "EOI"].map .ref))).expr.stillWith _ _ ≠ []
      rw [Term.expr_ofExpr, List.map_cons, ← List.map_cons, Expr.sequence_refs]
      refine Expr.stillWith_row_ne_nil (fun x hx r => ?_) _
      simp only [List.mem_cons, List.not_mem_nil, or_false] at hx
      rcases hx with rfl | rfl | rfl
      · exact List.cons_ne_nil _ _
      · rw [Expr.stillWith_ref (h.unreserved _ hstart)]
        exact h.throughRules_ne_nil hsplit (h.length_front_lt hsplit) (List.forall_mem_nil _) r
      · exact List.cons_ne_nil _ _

end Model.HasRules

/-! ## Rules that have passed the checks -/

namespace Peg

theorem nodup_of_repeatedRules {seen : List String} {ds : List Definition}
    (h : repeatedRules seen ds = []) :
    (ds.map Definition.name).Nodup ∧ ∀ x ∈ seen, x ∉ ds.map Definition.name := by
  induction ds generalizing seen with
  | nil => exact ⟨List.nodup_nil, fun _ _ => List.not_mem_nil⟩
  | cons d ds ih =>
    rw [repeatedRules] at h
    split at h
    · cases h
    · rename_i hseen
      obtain ⟨hnodup, hapart⟩ := ih h
      obtain ⟨hd, hseenApart⟩ := List.forall_mem_cons.1 hapart
      refine ⟨List.nodup_cons.2 ⟨hd, hnodup⟩, fun x hx hmem => ?_⟩
      rcases List.mem_cons.1 hmem with rfl | hmem
      · exact hseen hx
      · exact hseenApart x hx hmem

theorem map_name_ofRule (rules : List Rule) :
    (rules.map .ofRule).map Definition.name = rules.map Rule.name := by
  rw [List.map_map]
  rfl

/-- **The names of rules that have passed the checks on names** are distinct, and no keywords. -/
theorem names_of_nameFaults {ds : List Definition} (h : nameFaults ds = []) :
    (ds.map Definition.name).Nodup ∧ ∀ d ∈ ds, d.name ∉ keywords := by
  rw [nameFaults, List.append_eq_nil_iff, List.append_eq_nil_iff, List.filterMap_eq_nil_iff] at h
  refine ⟨(nodup_of_repeatedRules h.1.2).1, fun d hd hkeyword => ?_⟩
  have := h.1.1 d hd
  rw [if_pos hkeyword] at this
  cases this

theorem nameFaults_of_grammarFaults {source : List Char} {ds : List Definition}
    (h : grammarFaults source ds = []) : nameFaults ds = [] := by
  rw [grammarFaults] at h
  split at h
  · assumption
  · exact h

theorem blanksFault?_of_grammarFaults {source : List Char} {ds : List Definition}
    (h : grammarFaults source ds = []) {d : Definition} (hd : d ∈ ds) :
    blanksFault? ds d = none := by
  have hrun := runFaults_of_grammarFaults h
  rw [runFaults, ← List.length_eq_zero_iff, List.length_mergeSort, List.length_eq_zero_iff,
    List.append_eq_nil_iff, List.append_eq_nil_iff] at hrun
  exact List.filterMap_eq_nil_iff.1 hrun.1.2 d hd

end Peg

namespace Model

variable {m : Model} {startRule : String}

theorem isSound_pegRules : ∀ r ∈ m.pegRules startRule, r.body.isSound = true := by
  have hrefs (names : List String) : ∀ e ∈ names.map Expr.ref, e.isSound = true := by
    simp [Expr.isSound]
  refine List.forall_mem_cons.2 ⟨by decide, List.forall_mem_cons.2 ⟨rfl, fun r hr => ?_⟩⟩
  obtain ⟨q, hq, rfl⟩ := List.mem_map.1 hr
  obtain ⟨name, n, -, hq⟩ := mem_rules.1 hq
  cases hb : n.body with
  | token pattern => exact (NodeRule.isLexical_token hq hb).2.1
  | deduction elements =>
    rw [NodeRule.ofNode, hb] at hq
    cases hq
    refine Expr.isSound_sequence fun e he => ?_
    obtain ⟨d, -, rfl⟩ := List.mem_map.1 he
    rfl
  | union members =>
    rw [NodeRule.ofNode, hb] at hq
    cases hq
    exact Expr.isSound_firstOf (hrefs members)

/-- **Rules that were written for a model and have passed the checks.** The name of the start rule
may be one that is reserved for nodes, but no keyword. -/
structure IsWritten (m : Model) (startRule : String) : Prop extends m.HasRules startRule where
  keyword : startRule ∉ keywords
  steady : m.HasSteadyTokens startRule
  comment : m.leftRecursive = [] → startRule = "COMMENT" → m.start ∉ m.nullable

/-- Rules of distinct names that were written for a model are apart, whatever became of the name of
the start rule. -/
theorem IsNamed.hasRules {given : String} (h : m.IsNamed given)
    (hnodup : ((m.pegRules startRule).map Rule.name).Nodup) : m.HasRules startRule := by
  have hmap : (m.pegRules startRule).map Rule.name = "WHITESPACE" :: startRule :: m.names := by
    rw [pegRules, List.map_cons, List.map_cons, List.map_map, ← h.map_name_rules]
    rfl
  rw [hmap, List.nodup_cons, List.nodup_cons, List.mem_cons, not_or] at hnodup
  exact
    { unreserved := h.unreserved
      apart := fun name hn hs => hnodup.2.1 (hs ▸ hn)
      blanks := Ne.symm hnodup.1.1
      rules := h.rules }

/-- What the checks grant of the rules of a model. -/
theorem IsNamed.isWritten {given : String} (h : m.IsNamed given) (hv : m.IsValid)
    {source : List Char} {ds : List Definition}
    (hwrites : List.Forall₂ Definition.Writes ds (m.pegRules startRule))
    (hfaults : grammarFaults source ds = []) : m.IsWritten startRule := by
  have hbare := map_bare_of_writes hwrites isSound_pegRules
  have hfaults' : grammarFaults [] ((m.pegRules startRule).map .ofRule) = [] := by
    rw [← hbare]
    exact (grammarFaults_bare ds source []).2 hfaults
  obtain ⟨hnodup, hkeywords⟩ := names_of_nameFaults (nameFaults_of_grammarFaults hfaults')
  have hrules : m.HasRules startRule := h.hasRules (map_name_ofRule _ ▸ hnodup)
  have hstart : startPegRule startRule m.start ∈ m.pegRules startRule :=
    List.mem_cons_of_mem _ List.mem_cons_self
  exact
    { hrules with
      keyword := hkeywords _ (List.mem_map_of_mem hstart)
      steady := fun r hr hlex hsound => hlex.isSteady_of_grammarFaults hfaults' hr hsound
      comment := fun _ hs => hrules.notMem_nullable_of_blanksFault? hv hs
        (blanksFault?_of_grammarFaults hfaults' (List.mem_map_of_mem hstart)) }

/-- **All rules have an answer on every text**, where no node is left-recursive. -/
theorem IsWritten.settles_rule (h : m.IsWritten startRule) (hv : m.IsValid)
    (hrec : m.leftRecursive = []) {name : String}
    (hname : name ∈ (m.pegRules startRule).map Rule.name) (length : Nat) (ctx : Context)
    (st : State) :
    ∃ depth, runRule (m.routines startRule) length depth ctx name st ≠ .stuck :=
  h.toHasRules.settles_rule hv length hrec h.steady (h.comment hrec) h.keyword hname ctx st

end Model

end GrammarKit
