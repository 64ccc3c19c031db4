import GrammarKit.Peg.Checks

/-!
# Checks do not see places

The checks on a grammar tell where a fault is, but whether there is one depends on the rules
alone. What was read can therefore be checked as if it stood nowhere.

* `Term.bare`, `Definition.bare`: terms and definitions that stand nowhere.
* `Term.ofExpr`, `Definition.ofRule`: expressions and rules as such terms and definitions.
* `cannotFail_bare`, `standsStill_bare`, `leftRecursion?_bare`: what the analyses say.
* **`grammarFaults_bare`**: whether there are faults.
-/

namespace GrammarKit.Peg

/-! ## Terms that stand nowhere -/

/-- The term with all places left out. -/
def Term.bare : Term → Term
  | .leaf _ e fault => .leaf default e (fault.map fun f => (f.1, default))
  | .push _ body => .push default body.bare
  | .ahead _ body => .ahead default body.bare
  | .notAhead _ body => .notAhead default body.bare
  | .repeated _ body times fault =>
    .repeated default body.bare times (fault.map fun f => (f.1, default))
  | .seq _ left right => .seq default left.bare right.bare
  | .choice _ left right => .choice default left.bare right.bare
  | .flawed fault body => .flawed fault body.bare

/-- The definition with all places left out. -/
def Definition.bare (d : Definition) : Definition := ⟨d.name, default, d.kind, d.body.bare⟩

/-- The term of an expression, which stands nowhere. -/
def Term.ofExpr : Expr → Term
  | .push body => .push default (ofExpr body)
  | .ahead body => .ahead default (ofExpr body)
  | .notAhead body => .notAhead default (ofExpr body)
  | .repeated body times => .repeated default (ofExpr body) times none
  | .seq left right => .seq default (ofExpr left) (ofExpr right)
  | .choice left right => .choice default (ofExpr left) (ofExpr right)
  | e => .leaf default e none

/-- The definition of a rule, which stands nowhere. -/
def Definition.ofRule (r : Rule) : Definition := ⟨r.name, default, r.kind, .ofExpr r.body⟩

namespace Term

@[simp] theorem expr_bare (t : Term) : t.bare.expr = t.expr := by
  induction t <;> simp_all [bare, expr]

@[simp] theorem expr_ofExpr (e : Expr) : (ofExpr e).expr = e := by
  induction e <;> simp_all [ofExpr, expr]

theorem map_faults_bare (t : Term) : t.bare.faults.map Prod.fst = t.faults.map Prod.fst := by
  induction t with
  | leaf span e fault => cases fault <;> rfl
  | push _ _ ih | ahead _ _ ih | notAhead _ _ ih => exact ih
  | repeated span body times fault ih => cases fault <;> simp [bare, faults, ih]
  | seq _ _ _ ih ih' | choice _ _ _ ih ih' => simp [bare, faults, ih, ih']
  | flawed fault body ih => simp [bare, faults, ih]

/-- An expression that is taken as it is has no faults. -/
theorem faults_ofExpr (e : Expr) : (ofExpr e).faults = [] := by
  induction e <;> simp_all [ofExpr, faults]

theorem parts_bare (t : Term) : t.bare.parts = t.parts.map bare := by
  induction t <;> simp_all [bare, parts]

theorem reserves_bare (behind : Expr → Reserve → Reserve) (t : Term) (r : Reserve) :
    t.bare.reserves behind r = (t.reserves behind r).map fun x => (x.1.bare, x.2) := by
  induction t generalizing r <;> simp_all [bare, reserves]

theorem map_uses_bare (t : Term) : t.bare.uses.map Prod.fst = t.uses.map Prod.fst := by
  rw [uses, uses, parts_bare, List.filterMap_map, List.map_filterMap, List.map_filterMap]
  refine congrArg (List.filterMap · t.parts) (funext fun u => ?_)
  cases u with
  | leaf span e fault => cases e <;> rfl
  | _ => rfl

end Term

@[simp] theorem Definition.name_bare (d : Definition) : d.bare.name = d.name := rfl

@[simp] theorem Definition.body_bare (d : Definition) : d.bare.body = d.body.bare := rfl

/-! ## Analyses -/

variable (ds : List Definition)

theorem bodyOf?_bare (name : String) :
    bodyOf? (ds.map Definition.bare) name = (bodyOf? ds name).map Term.bare := by
  rw [bodyOf?, bodyOf?, List.find?_map, Option.map_map, Option.map_map]
  rfl

theorem throughRules_bare {α : Type} (dead : α) (f : (String → α) → Expr → α) (n : Nat) :
    throughRules (ds.map Definition.bare) dead f n = throughRules ds dead f n := by
  induction n with
  | zero => rfl
  | succ n ih =>
    funext trail name
    rw [throughRules, throughRules, ih, bodyOf?_bare]
    cases bodyOf? ds name <;> simp

theorem cannotFail_bare : cannotFail (ds.map Definition.bare) = cannotFail ds := by
  funext trail e
  rw [cannotFail, cannotFail, throughRules_bare, List.length_map]

theorem standsStill_bare : standsStill (ds.map Definition.bare) = standsStill ds := by
  funext trail e r
  rw [standsStill, standsStill, stillFrom, stillFrom, throughRules_bare, List.length_map]

theorem stackUsers_bare (n : Nat) (known : List String) :
    stackUsers (ds.map Definition.bare) n known = stackUsers ds n known := by
  induction n generalizing known with
  | zero => rfl
  | succ n ih =>
    have hmore : ((ds.map Definition.bare).filter (·.body.expr.usesStack known)).map
        Definition.name = (ds.filter (·.body.expr.usesStack known)).map Definition.name := by
      rw [List.filter_map, List.map_map]
      simp only [Function.comp_def, Definition.name_bare, Definition.body_bare, Term.expr_bare]
    rw [stackUsers, stackUsers, hmore]
    simp only [ih]

theorem reserveBehind_bare (users : List String) :
    reserveBehind (ds.map Definition.bare) users = reserveBehind ds users := by
  funext e r
  rw [reserveBehind, reserveBehind, standsStill_bare, throughRules_bare, List.length_map]

theorem comesBack_seq (trail : List String) (enter : String → Option (Span × List String))
    (span : Span) (left right : Term) :
    (Term.seq span left right).comesBack ds trail enter =
      if cannotFail ds trail.getLast?.toList left.expr ||
          standsStill ds trail.getLast?.toList left.expr .unknown then
        (left.comesBack ds trail enter).or (right.comesBack ds trail enter)
      else left.comesBack ds trail enter := by
  rw [Term.comesBack]
  cases left.comesBack ds trail enter <;> rfl

theorem comesBack_choice (trail : List String) (enter : String → Option (Span × List String))
    (span : Span) (left right : Term) :
    (Term.choice span left right).comesBack ds trail enter =
      (left.comesBack ds trail enter).or (right.comesBack ds trail enter) := by
  rw [Term.comesBack]
  cases left.comesBack ds trail enter <;> rfl

theorem comesBack_bare {trail : List String}
    {enter enter' : String → Option (Span × List String)}
    (henter : ∀ name, (enter' name).map Prod.snd = (enter name).map Prod.snd) (t : Term) :
    (t.bare.comesBack (ds.map Definition.bare) trail enter').map Prod.snd =
      (t.comesBack ds trail enter).map Prod.snd := by
  induction t with
  | leaf span e fault =>
    cases e with
    | ref name =>
      simp only [Term.bare, Term.comesBack]
      split
      · rfl
      · split
        · rfl
        · exact henter name
    | _ => rfl
  | push _ _ ih | ahead _ _ ih | notAhead _ _ ih | repeated _ _ _ _ ih | flawed _ _ ih => exact ih
  | seq span left right ih ih' =>
    simp only [Term.bare, comesBack_seq, cannotFail_bare, standsStill_bare, Term.expr_bare]
    split
    · rw [Option.map_or, Option.map_or, ih, ih']
    · exact ih
  | choice span left right ih ih' =>
    rw [Term.bare, comesBack_choice, comesBack_choice, Option.map_or, Option.map_or, ih, ih']

theorem ruleComesBack_bare (n : Nat) (trail : List String) (name : String) :
    (ruleComesBack (ds.map Definition.bare) n trail name).map Prod.snd =
      (ruleComesBack ds n trail name).map Prod.snd := by
  induction n generalizing trail name with
  | zero => rfl
  | succ n ih =>
    rw [ruleComesBack, ruleComesBack, bodyOf?_bare]
    cases bodyOf? ds name with
    | none => rw [Option.map_none, Option.bind_none, Option.bind_none]
    | some body => exact comesBack_bare ds (ih _) body

/-- The rules on the way back are the same. -/
theorem leftRecursion?_bare (d : Definition) :
    (leftRecursion? (ds.map Definition.bare) d.bare).map Prod.snd =
      (leftRecursion? ds d).map Prod.snd := by
  rw [leftRecursion?, leftRecursion?, List.length_map]
  exact ruleComesBack_bare ds _ _ _

/-! ## Faults -/

theorem filterMap_eq_nil_of_bare {α β γ δ : Type} {f : α → Option γ} {g : β → Option δ}
    {h : α → β} (hfg : ∀ a, (g (h a)).isNone = (f a).isNone) (as : List α) :
    (as.map h).filterMap g = [] ↔ as.filterMap f = [] := by
  simp only [List.filterMap_eq_nil_iff, List.forall_mem_map, ← Option.isNone_iff_eq_none, hfg]

theorem repetitionFault?_bare (x : Term × Reserve) :
    (repetitionFault? (ds.map Definition.bare) (x.1.bare, x.2)).isNone =
      (repetitionFault? ds x).isNone := by
  obtain ⟨t, r⟩ := x
  cases t with
  | repeated span body times fault =>
    cases times <;>
      simp only [Term.bare, repetitionFault?, cannotFail_bare, standsStill_bare, Term.expr_bare,
        apply_ite Option.isNone, Option.isNone_some, Option.isNone_none]
  | _ => rfl

theorem choiceFault?_bare (t : Term) :
    (choiceFault? (ds.map Definition.bare) t.bare).isNone = (choiceFault? ds t).isNone := by
  cases t with
  | choice span left right =>
    cases left <;>
      simp only [Term.bare, choiceFault?, cannotFail_bare, Term.expr_bare, Term.expr] <;>
      split <;> simp_all
  | _ => rfl

theorem blanksFault?_bare (d : Definition) :
    (blanksFault? (ds.map Definition.bare) d.bare).isNone = (blanksFault? ds d).isNone := by
  simp only [blanksFault?, Definition.name_bare, Definition.body_bare, cannotFail_bare,
    standsStill_bare, Term.expr_bare, apply_ite Option.isNone, Option.isNone_some,
    Option.isNone_none]

theorem recursionFault?_bare (source source' : List Char) (d : Definition) :
    (recursionFault? source' (ds.map Definition.bare) d.bare).isNone =
      (recursionFault? source ds d).isNone := by
  rw [recursionFault?, recursionFault?, Option.isNone_map, Option.isNone_map,
    ← Option.isNone_map (f := Prod.snd), leftRecursion?_bare, Option.isNone_map]

theorem flatMap_parts_bare :
    ((ds.map Definition.bare).flatMap fun d => d.body.parts) =
      (ds.flatMap fun d => d.body.parts).map Term.bare := by
  rw [List.flatMap_map, List.map_flatMap]
  simp only [Definition.body_bare, Term.parts_bare]

theorem flatMap_reserves_bare (behind : Expr → Reserve → Reserve) (r : Reserve) :
    ((ds.map Definition.bare).flatMap fun d => d.body.reserves behind r) =
      (ds.flatMap fun d => d.body.reserves behind r).map fun x => (x.1.bare, x.2) := by
  rw [List.flatMap_map, List.map_flatMap]
  simp only [Definition.body_bare, Term.reserves_bare]

theorem runFaults_bare (source source' : List Char) :
    runFaults source' (ds.map Definition.bare) = [] ↔ runFaults source ds = [] := by
  have hnil (l : List Finding) : (l.mergeSort fun a b => a.2.atMost b.2) = [] ↔ l = [] := by
    rw [← List.length_eq_zero_iff, List.length_mergeSort, List.length_eq_zero_iff]
  simp only [runFaults, hnil, List.append_eq_nil_iff, stackUsers_bare, List.length_map,
    reserveBehind_bare, flatMap_reserves_bare, flatMap_parts_bare]
  rw [filterMap_eq_nil_of_bare (repetitionFault?_bare ds),
    filterMap_eq_nil_of_bare (choiceFault?_bare ds),
    filterMap_eq_nil_of_bare (blanksFault?_bare ds),
    filterMap_eq_nil_of_bare (recursionFault?_bare ds source source')]

theorem repeatedRules_bare (seen : List String) :
    repeatedRules seen (ds.map Definition.bare) = [] ↔ repeatedRules seen ds = [] := by
  induction ds generalizing seen with
  | nil => rfl
  | cons d ds ih =>
    simp only [List.map_cons, repeatedRules, Definition.name_bare]
    by_cases hd : d.name ∈ seen
    · simp [hd]
    · simp only [hd, if_false, ih]

theorem nameFaults_eq : nameFaults ds =
    ds.filterMap (fun d =>
      if d.name ∈ keywords then some (.keyword d.name, d.nameSpan) else none) ++
    repeatedRules [] ds ++
    (ds.flatMap fun d => d.body.uses).filterMap fun use =>
      if (bodyOf? ds use.1).isSome || isBuiltin use.1 then none
      else some (.undefinedRule use.1, use.2) :=
  rfl

theorem nameFaults_bare : nameFaults (ds.map Definition.bare) = [] ↔ nameFaults ds = [] := by
  have huses : ((ds.map Definition.bare).flatMap fun d => d.body.uses).map Prod.fst =
      (ds.flatMap fun d => d.body.uses).map Prod.fst := by
    rw [List.flatMap_map, List.map_flatMap, List.map_flatMap]
    simp only [Definition.body_bare, Term.map_uses_bare]
  have hunknown (ds' : List Definition) (uses : List (String × Span)) :
      (uses.filterMap fun use =>
        if (bodyOf? ds' use.1).isSome || isBuiltin use.1 then none
        else some (GrammarFault.undefinedRule use.1, use.2)) = [] ↔
      ∀ name ∈ uses.map Prod.fst, ((bodyOf? ds' name).isSome || isBuiltin name) = true := by
    simp only [List.filterMap_eq_nil_iff, List.forall_mem_map]
    refine forall₂_congr fun x _ => ?_
    split <;> simp_all
  simp only [nameFaults_eq, List.append_eq_nil_iff, hunknown, huses, bodyOf?_bare, Option.isSome_map,
    repeatedRules_bare]
  rw [filterMap_eq_nil_of_bare (h := Definition.bare) fun d => ?_]
  rw [Definition.name_bare]
  split <;> rfl

theorem valueFault?_eq_none_iff {ds : List Definition} :
    valueFault? ds = none ↔ ∀ d ∈ ds, d.body.faults = [] := by
  rw [valueFault?, List.findSome?_eq_none_iff]
  refine forall₂_congr fun d _ => ?_
  rw [Option.map_eq_none_iff]
  cases d.body.faults with
  | nil => simp
  | cons f fs => cases (f :: fs).find? (·.1.isFatal) <;> simp

theorem valueFault?_bare :
    (valueFault? (ds.map Definition.bare)).isNone = (valueFault? ds).isNone := by
  rw [Bool.eq_iff_iff, Option.isNone_iff_eq_none, Option.isNone_iff_eq_none,
    valueFault?_eq_none_iff, valueFault?_eq_none_iff, List.forall_mem_map]
  refine forall₂_congr fun d _ => ?_
  rw [← List.map_eq_nil_iff (f := Prod.fst), Definition.body_bare, Term.map_faults_bare,
    List.map_eq_nil_iff]

/-- Rules that were taken as they are have no faults of parts. -/
theorem valueFault?_of_bare {ds : List Definition} {rules : List Rule}
    (hbare : ds.map Definition.bare = rules.map .ofRule) : valueFault? ds = none := by
  rw [← Option.isNone_iff_eq_none, ← valueFault?_bare, hbare, Option.isNone_iff_eq_none,
    valueFault?_eq_none_iff, List.forall_mem_map]
  exact fun r _ => Term.faults_ofExpr r.body

/-- **Whether there are faults does not depend on places.** -/
theorem grammarFaults_bare (source source' : List Char) :
    grammarFaults source' (ds.map Definition.bare) = [] ↔ grammarFaults source ds = [] := by
  have hnil (source : List Char) (ds : List Definition) : grammarFaults source ds = [] ↔
      nameFaults ds = [] ∧ (valueFault? ds).isNone = true ∧ runFaults source ds = [] := by
    rw [grammarFaults]
    cases nameFaults ds with
    | nil => cases valueFault? ds <;> simp
    | cons f fs => simp
  rw [hnil, hnil, nameFaults_bare, valueFault?_bare, runFaults_bare]

end GrammarKit.Peg
