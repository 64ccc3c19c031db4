import GrammarKit.Proofs.Model.FirstSymbols
import GrammarKit.Proofs.Model.Reachability

/-!
# Names written out

A name written out is the name itself and behind it, from left to right, all names that it leads to,
each of them written out in turn, but no name inside itself. Most names stand there many times. A
walk meets each of them where it stands first: a name that it passes over was met before, and then
either the walk is still inside that name, or all that the name leads to was met as well.

* `Graph.writtenOut`: a name written out.
* **`Graph.reachedFrom_eq_distinct`**: the order in which a walk meets names.
* `Model.HasMember`, `Model.expansion`: unions and what they are expanded to.
* **`Model.mem_concreteTypes_iff`**: a union stands for the tokens and deductions that chains of
  members lead to, in the order in which they stand in its expansion.
-/

namespace GrammarKit

/-! ## Lists taken in without repeats -/

/-- A list with another one behind it, of which it takes in what it does not have. -/
def takeIn (known more : List String) : List String :=
  more.foldl (fun known x => if x ∈ known then known else known ++ [x]) known

theorem takeIn_append (known xs ys : List String) :
    takeIn known (xs ++ ys) = takeIn (takeIn known xs) ys := List.foldl_append

theorem takeIn_cons_of_notMem {known : List String} {x : String} (h : x ∉ known)
    (more : List String) : takeIn known (x :: more) = takeIn (known ++ [x]) more := by
  rw [takeIn, List.foldl_cons, if_neg h, takeIn]

theorem takeIn_of_subset {known more : List String} (h : more ⊆ known) :
    takeIn known more = known := by
  induction more with
  | nil => rfl
  | cons x more ih =>
    obtain ⟨hx, hmore⟩ := List.cons_subset.1 h
    rw [takeIn, List.foldl_cons, if_pos hx]
    exact ih hmore

theorem takeIn_eq (known more : List String) :
    takeIn known more = known ++ (distinct more).filter (· ∉ known) := by
  induction more generalizing known with
  | nil => simp [takeIn, distinct]
  | cons x more ih =>
    rw [takeIn, List.foldl_cons]
    split
    · rename_i hx
      rw [← takeIn, ih, distinct, List.filter_cons_of_neg (by simpa using hx), List.filter_filter]
      refine congrArg (known ++ ·) (List.filter_congr fun y _ => ?_)
      by_cases hyx : y = x <;> simp_all
    · rename_i hx
      rw [← takeIn, ih, distinct, List.filter_cons_of_pos (by simpa using hx), List.filter_filter,
        List.append_assoc, List.singleton_append]
      refine congrArg (fun l => known ++ x :: l) (List.filter_congr fun y _ => ?_)
      by_cases hyx : y = x <;> simp_all

theorem takeIn_nil (more : List String) : takeIn [] more = distinct more := by
  rw [takeIn_eq, List.nil_append, List.filter_eq_self]
  exact fun _ _ => by simp

theorem filter_distinct (p : String → Bool) (xs : List String) :
    (distinct xs).filter p = distinct (xs.filter p) := by
  induction xs with
  | nil => rfl
  | cons x xs ih =>
    cases hx : p x with
    | false =>
      rw [distinct, List.filter_cons_of_neg (by simp [hx]), List.filter_cons_of_neg (by simp [hx]),
        ← ih, List.filter_filter]
      refine List.filter_congr fun y _ => ?_
      by_cases hyx : y = x <;> simp_all
    | true =>
      rw [distinct, List.filter_cons_of_pos hx, List.filter_cons_of_pos hx, distinct, ← ih,
        List.filter_filter, List.filter_filter]
      simp only [Bool.and_comm]

/-! ## The order of a walk -/

namespace Graph

variable {next : String → List String} {all : List String}

/-- **A name written out**: the name, and behind it from left to right all names that it leads to,
written out in turn. Names outside the stock are left out, and so is a name inside itself, `outer`
being the names around it. -/
def writtenOut (next : String → List String) (all outer : List String) (x : String) :
    List String :=
  if _ : x ∈ all ∧ x ∉ outer then
    x :: (next x).flatMap fun y => writtenOut next all (outer ++ [x]) y
  else []
termination_by (all.filter (· ∉ outer)).length
decreasing_by
  rename_i h
  exact length_filter_lt h.1 h.2

/-- A walk passes over a name that it has met, or that is not in the stock. -/
theorem walk_pass {x : String} {visited : List String} (h : ¬ (x ∈ all ∧ x ∉ visited)) :
    walk next all [x] visited = visited := by rw [walk, dif_neg h, walk]

/-- A walk takes one list of names after the other. -/
theorem walk_append (xs ys visited : List String) :
    walk next all (xs ++ ys) visited = walk next all ys (walk next all xs visited) := by
  fun_induction walk next all xs visited with
  | case1 visited => rfl
  | case2 visited x xs h ih => rw [List.cons_append, walk, dif_pos h, ← List.append_assoc, ih]
  | case3 visited x xs h ih => rw [List.cons_append, walk, dif_neg h, ih]

/-- All steps from names of a list stay in it, other than from the names in `outer`. -/
def IsClosedBut (next : String → List String) (all outer visited : List String) : Prop :=
  ∀ x ∈ visited, x ∉ outer → ∀ y, Step next all x y → y ∈ visited

namespace IsClosedBut

variable {outer visited : List String}

theorem walk (h : IsClosedBut next all outer visited) (stack : List String) :
    IsClosedBut next all outer (walk next all stack visited) := by
  intro x hx houter y hstep
  by_cases hv : x ∈ visited
  · exact subset_walk _ _ (h x hv houter y hstep)
  · exact walk_closed hx hv hstep

theorem meet (h : IsClosedBut next all outer visited) (x : String) :
    IsClosedBut next all (outer ++ [x]) (visited ++ [x]) := by
  intro z hz houter y hstep
  obtain ⟨hzo, hzx⟩ : z ∉ outer ∧ z ≠ x := by simpa using houter
  have hz : z ∈ visited := by simpa [hzx] using hz
  exact List.mem_append_left _ (h z hz hzo y hstep)

/-- A name that was met and is not one of the names around leads to names that were met. -/
theorem writtenOut_subset (h : IsClosedBut next all outer visited) {x : String}
    (hx : x ∈ visited) : writtenOut next all outer x ⊆ visited := by
  fun_induction writtenOut next all outer x with
  | case1 outer x hmeet ih =>
    have hinner : IsClosedBut next all (outer ++ [x]) visited := fun z hz houter =>
      h z hz fun hzo => houter (List.mem_append_left _ hzo)
    refine List.cons_subset.2 ⟨hx, fun z hz => ?_⟩
    obtain ⟨y, hy, hz⟩ := List.mem_flatMap.1 hz
    by_cases hall : y ∈ all
    · exact ih y hinner (h x hx hmeet.2 y ⟨hy, hall⟩) hz
    · rw [writtenOut, dif_neg fun hmeet => hall hmeet.1] at hz
      cases hz
  | case2 outer x hmeet => exact List.nil_subset _

end IsClosedBut

/-- A walk takes in names one after the other as it takes in each of them. -/
theorem walk_eq_takeIn {outer : List String} (hone : ∀ {visited : List String}, outer ⊆ visited →
      IsClosedBut next all outer visited → ∀ x,
        walk next all [x] visited = takeIn visited (writtenOut next all outer x))
    (xs : List String) {visited : List String} (hsub : outer ⊆ visited)
    (hclosed : IsClosedBut next all outer visited) :
    walk next all xs visited = takeIn visited (xs.flatMap (writtenOut next all outer)) := by
  induction xs generalizing visited with
  | nil => rw [walk]; rfl
  | cons x xs ih =>
    calc walk next all ([x] ++ xs) visited
        = walk next all xs (walk next all [x] visited) := walk_append ..
      _ = takeIn (walk next all [x] visited) (xs.flatMap (writtenOut next all outer)) :=
          ih (List.Subset.trans hsub (subset_walk _ _)) (hclosed.walk [x])
      _ = takeIn visited ((x :: xs).flatMap (writtenOut next all outer)) := by
          rw [hone hsub hclosed, ← takeIn_append, List.flatMap_cons]

/-- **A walk inside the names in `outer` takes in a name as it is written out there.** -/
theorem walk_singleton_eq {outer visited : List String} (hsub : outer ⊆ visited)
    (hclosed : IsClosedBut next all outer visited) (x : String) :
    walk next all [x] visited = takeIn visited (writtenOut next all outer x) := by
  fun_induction writtenOut next all outer x generalizing visited with
  | case1 outer x hmeet ih =>
    by_cases hx : x ∈ visited
    · -- The name was met and is not one of those around, so all that stands in it was met.
      rw [walk_pass fun h => h.2 hx, takeIn_of_subset]
      have hout := hclosed.writtenOut_subset hx
      rwa [writtenOut, dif_pos hmeet] at hout
    · -- From here on the walk is inside the name as well, until it has taken in all steps from it.
      have hinner : outer ++ [x] ⊆ visited ++ [x] :=
        List.append_subset.2 ⟨List.Subset.trans hsub (List.subset_append_left _ _),
          List.subset_append_right _ _⟩
      rw [walk, dif_pos ⟨hmeet.1, hx⟩, List.append_nil, takeIn_cons_of_notMem hx]
      exact walk_eq_takeIn (fun hsub hclosed y => ih y hsub hclosed) (next x) hinner
        (hclosed.meet x)
  | case2 outer x hmeet =>
    rw [walk_pass fun h => hmeet ⟨h.1, fun houter => h.2 (hsub houter)⟩]
    rfl

/-- **A walk meets names in the order in which they first stand** in the name at its start, written
out. -/
theorem reachedFrom_eq_distinct (x : String) :
    reachedFrom next all x = distinct (writtenOut next all [] x) := by
  rw [reachedFrom, walk_singleton_eq (List.nil_subset _) (fun _ h => absurd h List.not_mem_nil),
    takeIn_nil]

end Graph

/-! ## What unions stand for -/

namespace Model

variable {m : Model}

/-- **A union has a member.** -/
def HasMember (m : Model) (x y : String) : Prop :=
  ∃ n members, m.node? x = some n ∧ n.body = .union members ∧ y ∈ members

/-- **The expansion of a name** from left to right: a token or a deduction stands for itself, a union
for the expansions of its members. A union is not expanded again inside itself. -/
def expansion (m : Model) (name : String) : List String :=
  (Graph.writtenOut m.membersOf m.names [] name).filter m.isConcrete

theorem mem_membersOf {x y : String} : y ∈ m.membersOf x ↔ m.HasMember x y := by
  rw [membersOf, HasMember]
  cases hn : m.node? x with
  | none => simp
  | some n => cases hb : n.body <;> simp [hb]

theorem isConcrete_iff {k : String} :
    m.isConcrete k = true ↔ m.kindOf? k = some .token ∨ m.kindOf? k = some .deduction := by
  rw [isConcrete]
  cases m.kindOf? k with
  | none => simp
  | some kind => cases kind <;> simp

theorem mem_names_of_kindOf? {k : String} {kind : NodeKind} (h : m.kindOf? k = some kind) :
    k ∈ m.names := by
  obtain ⟨n, hn, -⟩ := Option.map_eq_some_iff.1 h
  exact has_iff.1 (has_iff_node?.2 ⟨n, hn⟩)

/-- A chain of members to a node goes through nodes only. -/
theorem reflTransGen_step_membersOf {name k : String} (hk : k ∈ m.names) :
    name ∈ m.names ∧ Relation.ReflTransGen (Graph.Step m.membersOf m.names) name k ↔
      Relation.ReflTransGen m.HasMember name k := by
  constructor
  · rintro ⟨-, hreach⟩
    exact Relation.ReflTransGen.mono (fun _ _ hstep => mem_membersOf.1 hstep.1) _ _ hreach
  · intro hreach
    induction hreach using Relation.ReflTransGen.head_induction_on with
    | refl => exact ⟨hk, .refl⟩
    | head hmember _ ih =>
      obtain ⟨n, -, hn, -⟩ := id hmember
      exact ⟨has_iff.1 (has_iff_node?.2 ⟨n, hn⟩), .head ⟨mem_membersOf.2 hmember, ih.1⟩ ih.2⟩

/-- **A union stands for the tokens and deductions that chains of members lead to**, be its members
nodes or not and the union among them or not: each once, in the order in which they first stand in
its expansion. A token or a deduction stands for itself. The walk that finds them ends after at most
a turn for each member of a union and one for its start. -/
theorem mem_concreteTypes_iff (m : Model) (name : String) :
    (∀ k, k ∈ m.concreteTypes name ↔
      (m.kindOf? k = some .token ∨ m.kindOf? k = some .deduction) ∧
        Relation.ReflTransGen m.HasMember name k) ∧
    (m.concreteTypes name).Nodup ∧
    m.concreteTypes name = distinct (m.expansion name) ∧
    ∃ n ≤ Graph.stepCount m.membersOf m.names + 1,
      (Graph.turn m.membersOf m.names)^[n] ([name], []) =
        ([], Graph.reachedFrom m.membersOf m.names name) := by
  have horder : m.concreteTypes name = distinct (m.expansion name) := by
    rw [concreteTypes, Graph.reachedFrom_eq_distinct, filter_distinct, expansion]
  refine ⟨fun k => ?_, horder ▸ nodup_distinct _, horder,
    Graph.exists_turns_reachedFrom m.nodes.nodup name⟩
  rw [concreteTypes, List.mem_filter, isConcrete_iff, Graph.mem_reachedFrom, and_comm]
  refine and_congr_right fun hkind => reflTransGen_step_membersOf ?_
  exact hkind.elim mem_names_of_kindOf? mem_names_of_kindOf?

end Model

end GrammarKit
