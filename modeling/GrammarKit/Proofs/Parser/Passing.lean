import GrammarKit.Proofs.Parser.Halting
import GrammarKit.Proofs.Peg.Places

/-!
# What the checks know of the empty text

Two of the checks on a grammar ask what an expression can do without taking a character: whether it
matches everywhere, and whether it can stand still. Both look into the rules that are used, except
for those on the way already. Of the rules of a model, they know the nodes that match the empty
text: these stand still for the checks, left-recursive or not, and no other node passes a check.

* `Model.HasRules.bodyOf?_node`: the rule of a node, as the checks see it.
* **`Model.HasRules.throughRules_ne_nil`**: nodes that match the empty text stand still.
* `Probes`: what the two checks have in common.
* **`Probes.mem_nullable`**: no other nodes are found to match without taking a character.
-/

namespace GrammarKit

open Peg

/-! ## Rows of names that stand still -/

namespace Peg.Expr

variable {rule : String → Reserve → List Reserve}

theorem stillWith_row_ne_nil {first : String} {names : List String}
    (h : ∀ x ∈ first :: names, ∀ r, (ref x).stillWith rule r ≠ []) (r : Reserve) :
    (row false first names).stillWith rule r ≠ [] := by
  have hfoldl (e : Expr) (he : ∀ r, e.stillWith rule r ≠ []) (names : List String)
      (h : ∀ x ∈ names, ∀ r, (ref x).stillWith rule r ≠ []) (r : Reserve) :
      ((names.map ref).foldl (link false) e).stillWith rule r ≠ [] := by
    induction names generalizing e with
    | nil => exact he r
    | cons name names ih =>
      obtain ⟨hname, hnames⟩ := List.forall_mem_cons.1 h
      exact ih (link false e (ref name)) (fun r => flatMap_ne_nil hname (he r)) hnames
  obtain ⟨hfirst, hnames⟩ := List.forall_mem_cons.1 h
  exact hfoldl (ref first) hfirst names hnames r

theorem stillWith_choice_ne_nil {first : String} {names : List String} {r : Reserve}
    (h : ∃ x ∈ first :: names, (ref x).stillWith rule r ≠ []) :
    (row true first names).stillWith rule r ≠ [] := by
  have hfoldl (e : Expr) (names : List String)
      (h : e.stillWith rule r ≠ [] ∨ ∃ x ∈ names, (ref x).stillWith rule r ≠ []) :
      ((names.map ref).foldl (link true) e).stillWith rule r ≠ [] := by
    induction names generalizing e with
    | nil => exact h.resolve_right fun ⟨x, hx, _⟩ => List.not_mem_nil hx
    | cons name names ih =>
      refine ih (link true e (ref name)) ?_
      rcases h with he | ⟨x, hx, hstill⟩
      · exact .inl (eraseDups_ne_nil (List.append_ne_nil_of_left_ne_nil he _))
      · rcases List.mem_cons.1 hx with rfl | hx
        · exact .inl (eraseDups_ne_nil (List.append_ne_nil_of_right_ne_nil _ hstill))
        · exact .inr ⟨x, hx, hstill⟩
  refine hfoldl (ref first) names ?_
  obtain ⟨x, hx, hstill⟩ := h
  rcases List.mem_cons.1 hx with rfl | hx
  · exact .inl hstill
  · exact .inr ⟨x, hx, hstill⟩

/-- The use of a name that is not reserved is told by its rule. -/
theorem stillWith_ref {name : String} (h : name ∉ reservedRuleNames) (r : Reserve) :
    (ref name).stillWith rule r = rule name r := by
  rw [stillWith]
  all_goals
    rintro rfl
    exact absurd (by decide) h

end Peg.Expr

/-! ## The rules of nodes -/

/-- The body of the rule of a name, among rules of distinct names. -/
theorem Peg.bodyOf?_ofRule {rules : List Rule} (hnodup : (rules.map Rule.name).Nodup) {r : Rule}
    (hr : r ∈ rules) : bodyOf? (rules.map .ofRule) r.name = some (.ofExpr r.body) := by
  induction rules with
  | nil => cases hr
  | cons q rules ih =>
    rw [List.map_cons, List.nodup_cons] at hnodup
    rw [List.map_cons, bodyOf?, List.find?_cons]
    rcases List.mem_cons.1 hr with rfl | hr
    · simp [Definition.ofRule]
    · have hne : (Definition.ofRule q).name ≠ r.name := fun hname =>
        hnodup.1 (List.mem_map.2 ⟨r, hr, hname.symm⟩)
      simp only [hne, decide_false]
      exact ih hnodup.2 hr

/-- A name that no rule has stands for nothing. -/
theorem Peg.bodyOf?_eq_none {rules : List Rule} {name : String}
    (h : name ∉ rules.map Rule.name) : bodyOf? (rules.map .ofRule) name = none := by
  rw [bodyOf?, Option.map_eq_none_iff, List.find?_eq_none]
  intro d hd
  obtain ⟨r, hr, rfl⟩ := List.mem_map.1 hd
  exact fun hname => h (List.mem_map.2 ⟨r, hr, of_decide_eq_true hname⟩)

namespace NodeRule

variable {name : String} {n : Node} {q : NodeRule} (hq : NodeRule.ofNode name n = .ok q)

include hq

theorem body_deduction {elements : List Element} (hb : n.body = .deduction elements) :
    q.rule.body = .sequence ((elements.map Element.target).map .ref) := by
  rw [NodeRule.ofNode, hb] at hq
  cases hq
  rw [List.map_map]
  rfl

theorem body_union {members : List String} (hb : n.body = .union members) :
    q.rule.body = .firstOf (members.map .ref) := by
  rw [NodeRule.ofNode, hb] at hq
  cases hq
  rfl

end NodeRule

namespace Model.HasRules

variable {m : Model} {startRule : String} (h : m.HasRules startRule)

include h

/-- **The rule of a node**, as the checks see it. -/
theorem bodyOf?_node {name : String} {n : Node} (hn : m.node? name = some n) :
    ∃ q, NodeRule.ofNode name n = .ok q ∧
      bodyOf? ((m.pegRules startRule).map .ofRule) name = some (.ofExpr q.rule.body) := by
  obtain ⟨q, hq⟩ := h.rules hn
  have hmem : q.rule ∈ m.pegRules startRule :=
    List.mem_cons_of_mem _ (List.mem_cons_of_mem _
      (List.mem_map_of_mem (mem_rules.2 ⟨name, n, hn, hq⟩)))
  have hbodyOf := bodyOf?_ofRule h.nodup_pegRules hmem
  rw [show q.rule.name = name from NodeRule.name_ofNode hq] at hbodyOf
  exact ⟨q, hq, hbodyOf⟩

/-! ## Nodes that match the empty text -/

/-- The checks look into enough rules for each of those nodes. -/
theorem length_front_lt {front back : List String} {x : String}
    (hsplit : m.nullable = front ++ x :: back) :
    front.length < ((m.pegRules startRule).map Definition.ofRule).length := by
  have hfounded : m.IsFounded m.nullable := isFounded_nullable
  have hle := (List.subperm_of_subset hfounded.nodup hfounded.subset_names).length_le
  rw [hsplit, List.length_append, List.length_cons] at hle
  have hnames := congrArg List.length h.map_name_pegRules
  rw [List.length_map, List.length_cons, List.length_cons] at hnames
  rw [List.length_map, hnames]
  omega

/-- **Nodes that match the empty text stand still for the checks**, unless the rules on the way are
needed to tell that they do: a node needs those that were found before it. -/
theorem throughRules_ne_nil {front back : List String} {x : String}
    (hsplit : m.nullable = front ++ x :: back) {n : Nat} (hn : front.length < n)
    {trail : List String} (htrail : ∀ t ∈ trail, t ∉ front ++ [x]) (r : Reserve) :
    throughRules ((m.pegRules startRule).map .ofRule) (fun _ => []) Expr.stillWith n trail x r ≠
      [] := by
  induction hlength : front.length using Nat.strong_induction_on generalizing front x back n trail r with
  | _ length ih =>
    subst hlength
    have hfounded : m.IsFounded m.nullable := isFounded_nullable
    obtain ⟨node, hnode, hempty⟩ := hfounded.founded front x back hsplit
    obtain ⟨q, hq, hbody⟩ := h.bodyOf?_node hnode
    have hnodup := hfounded.nodup
    rw [hsplit] at hnodup
    have hapart : x ∉ front := fun hx =>
      List.disjoint_of_nodup_append hnodup hx List.mem_cons_self
    obtain ⟨n, rfl⟩ : ∃ k, n = k + 1 := ⟨n - 1, by omega⟩
    have hnotMem : x ∉ trail := fun hx => htrail x hx (by simp)
    rw [throughRules, if_neg (by simpa using hnotMem), hbody]
    simp only [Term.expr_ofExpr]
    -- what `x` needs comes before it, and so does what that needs
    have href {y : String} (hy : y ∈ front) (r : Reserve) :
        (Expr.ref y).stillWith (throughRules ((m.pegRules startRule).map .ofRule) (fun _ => [])
          Expr.stillWith n (x :: trail)) r ≠ [] := by
      have hyNull : y ∈ m.nullable := hsplit ▸ List.mem_append_left _ hy
      rw [Expr.stillWith_ref (h.unreserved y (hfounded.subset_names hyNull))]
      obtain ⟨f, b, rfl⟩ := List.append_of_mem hy
      have hsub : f ++ [y] ⊆ f ++ y :: b := by simp
      have hlt : f.length < (f ++ y :: b).length := by simp
      have hsplit : m.nullable = f ++ y :: (b ++ x :: back) := by simp [hsplit]
      refine ih f.length hlt hsplit (by omega) ?_ r rfl
      exact List.forall_mem_cons.2 ⟨fun hx => hapart (hsub hx),
        fun t ht hmem => htrail t ht (List.mem_append_left _ (hsub hmem))⟩
    cases hb : node.body with
    | token pattern =>
      obtain ⟨hlex, hsound, hon⟩ := NodeRule.isLexical_token hq hb
      refine hlex.stillWith_ne_nil hsound ?_ _ r
      rw [Bool.eq_false_iff, Ne, hon]
      rw [hb] at hempty
      have htoken : (Body.token pattern).nullableIn front = true := Body.nullableIn_iff.2 hempty
      simpa [Body.nullableIn] using htoken
    | deduction elements =>
      rw [hb] at hempty
      rw [NodeRule.body_deduction hq hb]
      cases elements with
      | nil => exact List.cons_ne_nil _ _
      | cons e es =>
        rw [List.map_cons, Expr.sequence_refs]
        refine Expr.stillWith_row_ne_nil (fun y hy r => href ?_ r) r
        obtain ⟨d, hd, rfl⟩ := List.mem_map.1 (show y ∈ (e :: es).map Element.target from hy)
        exact hempty d hd
    | union members =>
      rw [hb] at hempty
      obtain ⟨y, hy, hyFront⟩ := hempty
      rw [NodeRule.body_union hq hb]
      cases members with
      | nil => exact absurd hy List.not_mem_nil
      | cons first members =>
        rw [Expr.firstOf_refs]
        exact Expr.stillWith_choice_ne_nil ⟨y, hy, href hyFront r⟩

/-! ## No other nodes -/

end Model.HasRules

/-- **A test for what matches without taking a character**, which looks into rules: it finds only
sequences in which it finds both parts, and only choices in which it finds a branch; of tokens that
take a character, it finds none. -/
structure Probes {α : Type} (dead : α) (f : (String → α) → Expr → α) (finds : α → Prop) : Prop where
  dead : ¬ finds dead
  ref : ∀ {rule name}, name ∉ reservedRuleNames → f rule (.ref name) = rule name
  seq : ∀ {rule left right}, finds (f rule (.seq left right)) →
    finds (f rule left) ∧ finds (f rule right)
  choice : ∀ {rule left right}, finds (f rule (.choice left right)) →
    finds (f rule left) ∨ finds (f rule right)
  token : ∀ {rule e}, e.IsLexical → e.getsOn = true → ¬ finds (rule "ASCII") →
    ¬ finds (rule "ANY") → ¬ finds (f rule e)

theorem probes_cannotFail : Probes false Expr.cannotFailWith (· = true) where
  dead := Bool.false_ne_true
  ref _ := rfl
  seq := Bool.and_eq_true_iff.1
  choice := Bool.or_eq_true_iff.1
  token {rule e} hlex hon hascii hany := by
    induction e with
    | text s =>
      have hs : s.isEmpty = false := by simpa [Expr.getsOn] using hon
      simp [Expr.cannotFailWith, hs]
    | range => exact Bool.false_ne_true
    | ref name =>
      rcases hlex with rfl | rfl
      · exact hascii
      · exact hany
    | notAhead body => exact Bool.false_ne_true
    | seq left right ihl ihr =>
      intro hfinds
      obtain ⟨hl, hr⟩ := Bool.and_eq_true_iff.1 hfinds
      rcases Bool.or_eq_true_iff.1 hon with hon | hon
      · exact ihl hlex.1 hon hl
      · exact ihr hlex.2 hon hr
    | choice left right ihl ihr =>
      intro hfinds
      obtain ⟨hl, hr⟩ := Bool.and_eq_true_iff.1 hon
      rcases Bool.or_eq_true_iff.1 hfinds with hfinds | hfinds
      · exact ihl hlex.1 hl hfinds
      · exact ihr hlex.2 hr hfinds
    | repeated body times ih =>
      have hbody : body.getsOn = true → ¬ body.cannotFailWith rule = true := ih hlex
      cases times with
      | optional | star | atMost => cases hon
      | plus => exact hbody hon
      | exactly n | atLeast n | between n =>
        simp only [Expr.getsOn, Bool.and_eq_true, bne_iff_ne] at hon
        simp only [Expr.cannotFailWith, Bool.or_eq_true, beq_iff_eq, not_or]
        exact ⟨by tauto, hbody hon.2⟩
    | anyCase | peek | push | ahead => exact hlex.elim

theorem repeatSteps_eq_nil {step : List Reserve → List Reserve} (hstep : ∀ rs, step rs = [])
    {n : Nat} (hn : n ≠ 0) {rs : List Reserve} (hrs : rs ≠ []) : repeatSteps step n rs = [] := by
  obtain ⟨n, rfl⟩ := Nat.exists_eq_succ_of_ne_zero hn
  have hnil (n : Nat) : repeatSteps step n [] = [] := by
    cases n with
    | zero => rfl
    | succ n => rw [repeatSteps, if_pos (hstep [])]
  rw [repeatSteps, hstep, if_neg hrs.symm, hnil]

theorem probes_stillWith : Probes (fun _ => []) Expr.stillWith fun g => ∃ r, g r ≠ [] where
  dead := fun ⟨_, h⟩ => h rfl
  ref h := funext (Expr.stillWith_ref h)
  seq {rule left right} h := by
    obtain ⟨r, h⟩ := h
    obtain ⟨x, hx⟩ := List.exists_mem_of_ne_nil _ h
    obtain ⟨s, hs, hx⟩ := List.mem_flatMap.1 hx
    exact ⟨⟨r, List.ne_nil_of_mem hs⟩, ⟨s, List.ne_nil_of_mem hx⟩⟩
  choice {rule left right} h := by
    obtain ⟨r, h⟩ := h
    by_contra hno
    obtain ⟨hl, hr⟩ := not_or.1 hno
    simp only [not_exists, not_not] at hl hr
    rw [Expr.stillWith, hl r, hr r] at h
    exact h rfl
  token {rule e} hlex hon hascii hany := by
    simp only [not_exists, not_not] at hascii hany ⊢
    induction e with
    | text s =>
      have hs : s.isEmpty = false := by simpa [Expr.getsOn] using hon
      intro r
      simp [Expr.stillWith, hs]
    | range => exact fun _ => rfl
    | ref name =>
      rcases hlex with rfl | rfl
      · exact hascii
      · exact hany
    | notAhead body => cases hon
    | seq left right ihl ihr =>
      intro r
      rw [Expr.stillWith]
      rcases Bool.or_eq_true_iff.1 hon with hon | hon
      · rw [ihl hlex.1 hon r, List.flatMap_nil]
      · simp [ihr hlex.2 hon]
    | choice left right ihl ihr =>
      obtain ⟨hl, hr⟩ := Bool.and_eq_true_iff.1 hon
      intro r
      rw [Expr.stillWith, ihl hlex.1 hl r, ihr hlex.2 hr r]
      rfl
    | repeated body times ih =>
      have hstep (hon : body.getsOn = true) (rs : List Reserve) :
          (rs.flatMap (body.stillWith rule)).eraseDups = [] := by
        rw [List.flatMap_eq_nil_iff.2 fun r _ => ih hlex hon r]
        rfl
      intro r
      cases times with
      | optional | star | atMost => cases hon
      | plus => exact hstep hon [r]
      | exactly n | atLeast n | between n =>
        simp only [Expr.getsOn, Bool.and_eq_true, bne_iff_ne] at hon
        have hn : n ≠ 0 := by tauto
        simp only [Expr.stillWith, beq_iff_eq, if_neg hn]
        exact repeatSteps_eq_nil (hstep hon.2) hn (List.cons_ne_nil _ _)
    | anyCase | peek | push | ahead => exact hlex.elim

namespace Probes

variable {α : Type} {dead : α} {f : (String → α) → Expr → α} {finds : α → Prop}
  (hp : Probes dead f finds) {rule : String → α}

include hp

/-- Of a sequence of names that is found, each name is. -/
theorem finds_of_sequence {names : List String}
    (h : finds (f rule (.sequence (names.map .ref)))) : ∀ x ∈ names, finds (f rule (.ref x)) := by
  have hfoldl (names : List String) (e : Expr)
      (h : finds (f rule ((names.map .ref).foldl (Expr.link false) e))) :
      finds (f rule e) ∧ ∀ x ∈ names, finds (f rule (.ref x)) := by
    induction names generalizing e with
    | nil => exact ⟨h, List.forall_mem_nil _⟩
    | cons name names ih =>
      obtain ⟨hboth, hnames⟩ := ih (Expr.link false e (.ref name)) h
      obtain ⟨he, hname⟩ := hp.seq hboth
      exact ⟨he, List.forall_mem_cons.2 ⟨hname, hnames⟩⟩
  cases names with
  | nil => exact List.forall_mem_nil _
  | cons first names =>
    rw [List.map_cons, ← List.map_cons, Expr.sequence_refs] at h
    exact List.forall_mem_cons.2 (hfoldl names (.ref first) h)

/-- Of a choice between names that is found, one name is. -/
theorem exists_of_firstOf {names : List String} (hne : names ≠ [])
    (h : finds (f rule (.firstOf (names.map .ref)))) : ∃ x ∈ names, finds (f rule (.ref x)) := by
  have hfoldl (names : List String) (e : Expr)
      (h : finds (f rule ((names.map .ref).foldl (Expr.link true) e))) :
      finds (f rule e) ∨ ∃ x ∈ names, finds (f rule (.ref x)) := by
    induction names generalizing e with
    | nil => exact .inl h
    | cons name names ih =>
      rcases ih (Expr.link true e (.ref name)) h with hboth | ⟨x, hx, hfinds⟩
      · rcases hp.choice hboth with he | hname
        · exact .inl he
        · exact .inr ⟨name, List.mem_cons_self, hname⟩
      · exact .inr ⟨x, List.mem_cons_of_mem _ hx, hfinds⟩
  obtain ⟨first, names, rfl⟩ := List.exists_cons_of_ne_nil hne
  rw [List.map_cons, ← List.map_cons, Expr.firstOf_refs] at h
  rcases hfoldl names (.ref first) h with h | ⟨x, hx, h⟩
  · exact ⟨first, List.mem_cons_self, h⟩
  · exact ⟨x, List.mem_cons_of_mem _ hx, h⟩

variable {m : Model} {startRule : String} (h : m.HasRules startRule) (hv : m.IsValid)
  (hascii : startRule ≠ "ASCII") (hany : startRule ≠ "ANY")

include h hv hascii hany

/-- **Only nodes that match the empty text are found**, if no rule takes the place of the classes of
characters that tokens use. -/
theorem mem_nullable {n : Nat} {trail : List String} {x : String} (hx : x ∈ m.names)
    (hfinds : finds (throughRules ((m.pegRules startRule).map .ofRule) dead f n trail x)) :
    x ∈ m.nullable := by
  induction n generalizing trail x with
  | zero => exact absurd hfinds hp.dead
  | succ n ih =>
    rw [throughRules] at hfinds
    split at hfinds
    · exact absurd hfinds hp.dead
    obtain ⟨node, hnode⟩ := Model.has_iff_node?.1 (Model.has_iff.2 hx)
    obtain ⟨q, hq, hbody⟩ := h.bodyOf?_node hnode
    simp only [hbody, Term.expr_ofExpr] at hfinds
    have hclass {name : String} (hres : name ∈ reservedRuleNames) (hblanks : name ≠ "WHITESPACE")
        (hstart : startRule ≠ name) : ¬ finds (throughRules ((m.pegRules startRule).map .ofRule)
          dead f n (x :: trail) name) := by
      cases n with
      | zero => exact hp.dead
      | succ n =>
        rw [throughRules, bodyOf?_eq_none (h.notMem_pegRules hres hblanks hstart), ite_self]
        exact hp.dead
    have href {y : String} (hy : y ∈ m.names)
        (hfinds : finds (f (throughRules ((m.pegRules startRule).map .ofRule) dead f n (x :: trail))
          (.ref y))) : y ∈ m.nullable := by
      rw [hp.ref (h.unreserved y hy)] at hfinds
      exact ih hy hfinds
    refine Model.mem_nullable hnode ?_
    cases hb : node.body with
    | token pattern =>
      obtain ⟨hlex, -, hon⟩ := NodeRule.isLexical_token hq hb
      have hstill : ¬ q.rule.body.getsOn = true := fun hon =>
        hp.token hlex hon (hclass (by decide) (by decide) hascii)
          (hclass (by decide) (by decide) hany) hfinds
      rw [hon] at hstill
      simpa [Body.nullableIn] using hstill
    | deduction elements =>
      rw [NodeRule.body_deduction hq hb] at hfinds
      rw [Body.nullableIn_iff]
      intro e he
      have hhas := hv.references hnode e.target (by
        rw [Node.references, hb]
        exact List.mem_map_of_mem he)
      exact href (Model.has_iff.1 hhas) (hp.finds_of_sequence hfinds _ (List.mem_map_of_mem he))
    | union members =>
      rw [NodeRule.body_union hq hb] at hfinds
      obtain ⟨y, hy, hyFinds⟩ := hp.exists_of_firstOf (hv.members hnode hb) hfinds
      have hhas := hv.references hnode y (by rw [Node.references, hb]; exact hy)
      rw [Body.nullableIn_iff]
      exact ⟨y, hy, href (Model.has_iff.1 hhas) hyFinds⟩

end Probes

end GrammarKit
