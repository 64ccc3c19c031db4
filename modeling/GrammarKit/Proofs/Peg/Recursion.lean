import GrammarKit.Proofs.Peg.Places
import Mathlib.Data.List.Nodup
import Mathlib.Data.List.Perm.Subperm
import Mathlib.Logic.Relation

/-!
# The search for left recursion

From each rule, the checks look for a way back to it, along the names that can come first. They go
depth first, and they pass over the rules that are on the way already. That leaves no way back out:
one that comes to a rule twice can be cut short.

* `Term.leads`, `LeadsTo`: which names can come first, as the checks see it.
* `ruleComesBack_isSome_iff`: one step of the search.
* `reflTransGen_outside`: ways that do not come back to where they start.
* **`leftRecursion?_isSome_iff`**: a way back is found exactly if there is one.
* `exists_leftRecursive_iff`: when left recursion is among the faults.
-/

namespace GrammarKit.Peg

open Relation (TransGen ReflTransGen)

variable {ds : List Definition}

/-! ## What can come first -/

/-- Whether what stands behind an expression may come first, in a rule that is looked into. -/
def passes (ds : List Definition) (here : List String) (e : Expr) : Bool :=
  cannotFail ds here e || standsStill ds here e .unknown

/-- **The names that can come first** in an expression of the rule `here`, from left to right. -/
def Term.leads (ds : List Definition) (here : List String) : Term → List String
  | .leaf _ (.ref name) _ => [name]
  | .leaf .. => []
  | .seq _ left right =>
    if passes ds here left.expr then left.leads ds here ++ right.leads ds here
    else left.leads ds here
  | .choice _ left right => left.leads ds here ++ right.leads ds here
  | .repeated _ body _ _ | .push _ body | .ahead _ body | .notAhead _ body | .flawed _ body =>
    body.leads ds here

/-- One name leads to another that can come first in its rule. -/
def LeadsTo (ds : List Definition) (x y : String) : Prop :=
  ∃ body, bodyOf? ds x = some body ∧ y ∈ body.leads ds [x]

theorem LeadsTo.mem_names {x y : String} (h : LeadsTo ds x y) : x ∈ ds.map Definition.name := by
  obtain ⟨body, hbody, -⟩ := h
  obtain ⟨d, hd, -⟩ := Option.map_eq_some_iff.1 hbody
  have hname : d.name = x := by simpa using List.find?_some hd
  exact List.mem_map.2 ⟨d, List.mem_of_find?_eq_some hd, hname⟩

/-! ## Steps of the search -/

/-- A way back is found in an expression if one of the names that can come first is at the start of
the trail, or it is not on the trail and there is a way back from its rule. -/
theorem comesBack_isSome_iff (trail : List String)
    (enter : String → Option (Span × List String)) (t : Term) :
    (t.comesBack ds trail enter).isSome = true ↔
      ∃ y ∈ t.leads ds trail.getLast?.toList,
        trail.head? = some y ∨ y ∉ trail ∧ (enter y).isSome = true := by
  induction t with
  | leaf span e fault =>
    cases e with
    | ref name =>
      simp only [Term.comesBack, Term.leads, List.mem_singleton, exists_eq_left]
      split
      · rename_i hhead
        exact iff_of_true rfl (.inl hhead)
      · rename_i hhead
        rw [or_iff_right hhead]
        split
        · rename_i hmem
          exact iff_of_false Bool.false_ne_true fun h => h.1 (by simpa using hmem)
        · rename_i hmem
          rw [and_iff_right (by simpa using hmem)]
    | _ =>
      refine iff_of_false Bool.false_ne_true ?_
      rintro ⟨y, hy, -⟩
      exact List.not_mem_nil hy
  | seq span left right ihl ihr =>
    rw [comesBack_seq, Term.leads, passes]
    split
    · simp only [Option.isSome_or, Bool.or_eq_true, ihl, ihr, List.mem_append, or_and_right,
        exists_or]
    · exact ihl
  | choice span left right ihl ihr =>
    rw [comesBack_choice, Term.leads]
    simp only [Option.isSome_or, Bool.or_eq_true, ihl, ihr, List.mem_append, or_and_right, exists_or]
  | repeated _ _ _ _ ih | push _ _ ih | ahead _ _ ih | notAhead _ _ ih | flawed _ _ ih => exact ih

/-- **One step of the search**, from the rule `x` at the end of the trail. -/
theorem ruleComesBack_isSome_iff (n : Nat) (trail : List String) (x : String) :
    (ruleComesBack ds (n + 1) trail x).isSome = true ↔
      ∃ y, LeadsTo ds x y ∧ ((trail ++ [x]).head? = some y ∨
        y ∉ trail ++ [x] ∧ (ruleComesBack ds n (trail ++ [x]) y).isSome = true) := by
  rw [ruleComesBack]
  cases hbody : bodyOf? ds x with
  | none =>
    refine iff_of_false Bool.false_ne_true ?_
    rintro ⟨y, ⟨body, hsome, -⟩, -⟩
    rw [hbody] at hsome
    cases hsome
  | some body =>
    have hhere : (trail ++ [x]).getLast?.toList = [x] := by simp
    rw [Option.bind_some, comesBack_isSome_iff, hhere]
    simp [LeadsTo, hbody]

/-- What the search finds is a way back. -/
theorem transGen_of_ruleComesBack {n : Nat} {trail : List String} {x first : String}
    (hfirst : (trail ++ [x]).head? = some first)
    (h : (ruleComesBack ds n trail x).isSome = true) : TransGen (LeadsTo ds) x first := by
  induction n generalizing trail x with
  | zero => cases h
  | succ n ih =>
    obtain ⟨y, hxy, hback | ⟨-, hback⟩⟩ := (ruleComesBack_isSome_iff n trail x).1 h
    · rw [hfirst] at hback
      exact .single (Option.some.inj hback ▸ hxy)
    · exact .head hxy (ih (by rw [List.head?_append, hfirst]; rfl) hback)

/-! ## Ways back -/

/-- A way need not come back to where it starts. -/
theorem reflTransGen_outside {α : Type} {r : α → α → Prop} {trail : List α} {x z : α}
    (h : ReflTransGen (fun u v => r u v ∧ v ∉ trail) x z) :
    ReflTransGen (fun u v => r u v ∧ v ∉ trail ++ [x]) x z := by
  have hcut {u : α} (h : ReflTransGen (fun u v => r u v ∧ v ∉ trail) u z) :
      ReflTransGen (fun u v => r u v ∧ v ∉ trail ++ [x]) u z ∨
        ReflTransGen (fun u v => r u v ∧ v ∉ trail ++ [x]) x z := by
    induction h using ReflTransGen.head_induction_on with
    | refl => exact .inl .refl
    | @head u v huv _ ih =>
      rcases ih with hv | hx
      · by_cases hvx : v = x
        · exact .inr (hvx ▸ hv)
        · exact .inl (.head ⟨huv.1, by simp [huv.2, hvx]⟩ hv)
      · exact .inr hx
  exact (hcut h).elim id id

/-- **A way back is found**: the trail holds names of rules, none of them twice, so the search comes
to its end before it has used up what it may look into. -/
theorem ruleComesBack_isSome {n : Nat} {trail : List String} {x z first : String}
    (hfirst : (trail ++ [x]).head? = some first) (hnodup : (trail ++ [x]).Nodup)
    (hnames : trail ⊆ ds.map Definition.name) (hn : ds.length ≤ n + trail.length)
    (hway : ReflTransGen (fun u v => LeadsTo ds u v ∧ v ∉ trail ++ [x]) x z)
    (hback : LeadsTo ds z first) : (ruleComesBack ds n trail x).isSome = true := by
  induction n generalizing trail x with
  | zero =>
    have hx : x ∈ ds.map Definition.name := by
      rcases hway.cases_head with rfl | ⟨y, hxy, -⟩
      · exact hback.mem_names
      · exact hxy.1.mem_names
    have hsub : trail ++ [x] ⊆ ds.map Definition.name :=
      List.append_subset.2 ⟨hnames, fun _ hy => List.mem_singleton.1 hy ▸ hx⟩
    have hle := (List.subperm_of_subset hnodup hsub).length_le
    rw [List.length_append, List.length_singleton, List.length_map] at hle
    omega
  | succ n ih =>
    rw [ruleComesBack_isSome_iff]
    rcases hway.cases_head with rfl | ⟨y, ⟨hxy, hy⟩, hway⟩
    · exact ⟨first, hback, .inl hfirst⟩
    · refine ⟨y, hxy, .inr ⟨hy, ih ?_ ?_ ?_ ?_ (reflTransGen_outside hway)⟩⟩
      · rw [List.head?_append, hfirst]
        rfl
      · rw [← List.concat_eq_append]
        exact hnodup.concat hy
      · exact List.append_subset.2 ⟨hnames, fun _ hu => List.mem_singleton.1 hu ▸ hxy.mem_names⟩
      · rw [List.length_append, List.length_singleton]
        omega

/-- **The search finds a way back to a rule exactly if there is one.** -/
theorem leftRecursion?_isSome_iff (d : Definition) :
    (leftRecursion? ds d).isSome = true ↔ TransGen (LeadsTo ds) d.name d.name := by
  rw [leftRecursion?]
  constructor
  · exact transGen_of_ruleComesBack rfl
  · intro hcycle
    obtain ⟨z, hway, hback⟩ := TransGen.tail'_iff.1 hcycle
    refine ruleComesBack_isSome rfl (List.nodup_singleton _) (List.nil_subset _)
      (Nat.le_refl _) (reflTransGen_outside ?_) hback
    simpa using hway

/-! ## Faults -/

/-- Whether a fault is left recursion. -/
def GrammarFault.isLeftRecursive : GrammarFault → Bool
  | leftRecursive .. => true
  | _ => false

/-- What the checks on repetitions, choices and blanks find. -/
theorem mem_runFaults_cases {source : List Char} {f : Finding} (h : f ∈ runFaults source ds) :
    (∃ x, repetitionFault? ds x = some f) ∨ (∃ t, choiceFault? ds t = some f) ∨
      (∃ d, blanksFault? ds d = some f) ∨ ∃ d ∈ ds, recursionFault? source ds d = some f := by
  rw [runFaults, List.mem_mergeSort, List.mem_append, List.mem_append, List.mem_append,
    List.mem_filterMap, List.mem_filterMap, List.mem_filterMap, List.mem_filterMap] at h
  obtain ((⟨x, -, hf⟩ | ⟨t, -, hf⟩) | ⟨d, -, hf⟩) | ⟨d, hd, hf⟩ := h
  · exact .inl ⟨x, hf⟩
  · exact .inr (.inl ⟨t, hf⟩)
  · exact .inr (.inr (.inl ⟨d, hf⟩))
  · exact .inr (.inr (.inr ⟨d, hd, hf⟩))

theorem kind_of_repetitionFault? {x : Term × Reserve} {f : Finding}
    (h : repetitionFault? ds x = some f) : f.1.isFatal = false ∧ f.1.isLeftRecursive = false := by
  unfold repetitionFault? at h
  repeat' split at h
  all_goals
    cases h
    try exact ⟨rfl, rfl⟩

theorem kind_of_choiceFault? {t : Term} {f : Finding} (h : choiceFault? ds t = some f) :
    f.1.isFatal = false ∧ f.1.isLeftRecursive = false := by
  cases t with
  | choice span left right =>
    obtain ⟨-, ⟨⟩⟩ := Option.ite_none_right_eq_some.1 h
    exact ⟨rfl, rfl⟩
  | _ => cases h

theorem kind_of_blanksFault? {d : Definition} {f : Finding} (h : blanksFault? ds d = some f) :
    f.1.isFatal = false ∧ f.1.isLeftRecursive = false := by
  unfold blanksFault? at h
  repeat' split at h
  all_goals
    cases h
    try exact ⟨rfl, rfl⟩

theorem kind_of_recursionFault? {source : List Char} {d : Definition} {f : Finding}
    (h : recursionFault? source ds d = some f) :
    f.1.isFatal = false ∧ f.1.isLeftRecursive = true := by
  obtain ⟨x, -, rfl⟩ := Option.map_eq_some_iff.1 h
  exact ⟨rfl, rfl⟩

/-- No fault of an expression leaves a part without meaning. -/
theorem isFatal_of_mem_runFaults {source : List Char} {f : Finding}
    (h : f ∈ runFaults source ds) : f.1.isFatal = false := by
  obtain ⟨x, hf⟩ | ⟨t, hf⟩ | ⟨d, hf⟩ | ⟨d, -, hf⟩ := mem_runFaults_cases h
  · exact (kind_of_repetitionFault? hf).1
  · exact (kind_of_choiceFault? hf).1
  · exact (kind_of_blanksFault? hf).1
  · exact (kind_of_recursionFault? hf).1

/-- **Left recursion is among the faults** exactly if some rule comes back to itself. -/
theorem exists_leftRecursive_iff (source : List Char) :
    (∃ f ∈ runFaults source ds, f.1.isLeftRecursive = true) ↔
      ∃ d ∈ ds, TransGen (LeadsTo ds) d.name d.name := by
  simp only [← leftRecursion?_isSome_iff]
  constructor
  · rintro ⟨f, hf, hrec⟩
    obtain ⟨x, hf⟩ | ⟨t, hf⟩ | ⟨d, hf⟩ | ⟨d, hd, hf⟩ := mem_runFaults_cases hf
    · exact absurd hrec (by simp [(kind_of_repetitionFault? hf).2])
    · exact absurd hrec (by simp [(kind_of_choiceFault? hf).2])
    · exact absurd hrec (by simp [(kind_of_blanksFault? hf).2])
    · obtain ⟨x, hx, -⟩ := Option.map_eq_some_iff.1 hf
      exact ⟨d, hd, by rw [hx]; rfl⟩
  · rintro ⟨d, hd, hback⟩
    obtain ⟨x, hx⟩ := Option.isSome_iff_exists.1 hback
    obtain ⟨f, hfault⟩ : ∃ f, recursionFault? source ds d = some f := by
      rw [recursionFault?, hx]
      exact ⟨_, rfl⟩
    refine ⟨f, ?_, (kind_of_recursionFault? hfault).2⟩
    rw [runFaults, List.mem_mergeSort]
    exact List.mem_append_right _ (List.mem_filterMap.2 ⟨d, hd, hfault⟩)

end GrammarKit.Peg
