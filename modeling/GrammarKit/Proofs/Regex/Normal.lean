import GrammarKit.Proofs.Regex.Classes

/-!
# Regular expressions that are read

What the reader and the constructors grant of every regular expression that is read: its counts are
in order, its choices have a branch, and what matches the empty text only is not repeated without
end.

* `Ast.IsCounted`: written expressions whose counts are in order.
* `Regex.IsNormal`: expressions in a form that the constructors keep.
* **`isNormal_parse`**: every expression that is read is in this form.
-/

namespace GrammarKit.Regex

/-! ## Counts -/

/-- The greatest count that can be written. -/
def maxCount : Nat := 0xFFFFFFFF

/-- **Counts that are in order**: both can be written, and the least is not above the most. -/
structure CountsInOrder (least : Nat) (most : Option Nat) : Prop where
  least_le : least ≤ maxCount
  most_le : ∀ m, most = some m → least ≤ m ∧ m ≤ maxCount

theorem count_le {verbose : Bool} {s rest : List Char} {n : Nat}
    (h : count verbose s = (.ok n, rest)) : n ≤ maxCount := by
  rw [count, Prod.mk.injEq] at h
  have h := h.1
  split at h
  · cases h
  · split at h
    · rename_i hle
      cases h
      exact hle
    · cases h

theorem countRange_le {verbose : Bool} {s rest : List Char} {least : Nat} {most : Option Nat}
    (h : countRange verbose s = .ok ((least, most), rest)) :
    least ≤ maxCount ∧ ∀ m, most = some m → m ≤ maxCount := by
  rw [countRange] at h
  cases hcount : count verbose s with
  | mk first s =>
    simp only [hcount] at h
    split at h
    · cases h
    · split at h
      · split at h
        · cases h
        · obtain ⟨n, rfl, h⟩ := bind_ok h
          have hn := count_le hcount
          split at h
          · cases h
            exact ⟨hn, fun m hm => by cases hm⟩
          · rename_i d t _ _
            generalize hmost : count verbose (_ :: _) = counted at h
            obtain ⟨second, s⟩ := counted
            cases second with
            | error e => cases h
            | ok m =>
              cases h
              refine ⟨hn, ?_⟩
              rintro _ ⟨⟩
              exact count_le hmost
      · obtain ⟨n, rfl, h⟩ := bind_ok h
        cases h
        have hn := count_le hcount
        refine ⟨hn, ?_⟩
        rintro _ ⟨⟩
        exact hn

theorem countsInOrder_of_countedRepetition {verbose : Bool} {s rest : List Char} {least : Nat}
    {most : Option Nat} {greedy : Bool}
    (h : countedRepetition verbose s = .ok ((least, most, greedy), rest)) :
    CountsInOrder least most := by
  rw [countedRepetition] at h
  split at h
  · cases h
  · obtain ⟨⟨⟨least', most'⟩, t⟩, hrange, h⟩ := bind_ok h
    obtain ⟨hleast, hmost⟩ := countRange_le hrange
    simp only at h
    split at h
    · cases h
    · split at h
      · cases h
      · split at h
        · rename_i hle
          cases h
          refine ⟨hleast, ?_⟩
          rintro m rfl
          exact ⟨by simpa using hle, hmost m rfl⟩
        · cases h

/-! ## Written expressions -/

mutual

/-- **Written expressions whose counts are in order** and whose choices have a branch. -/
def Ast.IsCounted : Ast → Prop
  | .repetition body least most _ => body.IsCounted ∧ CountsInOrder least most
  | .group _ body => body.IsCounted
  | .alternation branches => branches ≠ [] ∧ Ast.AllCounted branches
  | .concat parts => Ast.AllCounted parts
  | .empty | .flags _ | .literal _ | .dot | .assertion _ | .escapeClass .. | .property ..
  | .bracketed .. => True

/-- All expressions are such ones. -/
def Ast.AllCounted : List Ast → Prop
  | [] => True
  | a :: as => a.IsCounted ∧ Ast.AllCounted as

end

theorem Ast.allCounted_iff {as : List Ast} : Ast.AllCounted as ↔ ∀ a ∈ as, a.IsCounted := by
  induction as with
  | nil => exact iff_of_true trivial fun _ h => by cases h
  | cons a as ih => rw [Ast.AllCounted, ih, List.forall_mem_cons]

theorem Ast.isCounted_ofParts {as : List Ast} (h : ∀ a ∈ as, a.IsCounted) :
    (Ast.ofParts as).IsCounted := by
  rw [Ast.ofParts.eq_def]
  split
  · exact trivial
  · exact h _ List.mem_cons_self
  · exact Ast.allCounted_iff.2 h

/-- The expressions that a frame holds. -/
def Frame.asts (f : Frame) : List Ast :=
  match f with
  | .group _ before _ => before
  | .branches earlier => earlier

theorem eq_or_eq_of_ite {α : Type} {P : Prop} [Decidable P] {x y z : α}
    (h : (if P then x else y) = z) : x = z ∨ y = z := by
  split at h
  · exact .inl h
  · exact .inr h

namespace ReadState

/-- A state in which only expressions with counts in order have been read. -/
structure IsCounted (st : ReadState) : Prop where
  parts : ∀ a ∈ st.parts, a.IsCounted
  stack : ∀ f ∈ st.stack, ∀ a ∈ f.asts, a.IsCounted

namespace IsCounted

variable {st : ReadState} (h : st.IsCounted)

include h

theorem push {a : Ast} (ha : a.IsCounted) (rest : List Char) : (st.push a rest).IsCounted where
  parts := List.forall_mem_append.2 ⟨h.parts, fun _ hb => List.mem_singleton.1 hb ▸ ha⟩
  stack := h.stack

theorem enter (kind : GroupKind) (verbose : Bool) (rest : List Char) :
    (st.enter kind verbose rest).IsCounted where
  parts := fun _ ha => by cases ha
  stack := List.forall_mem_cons.2 ⟨h.parts, h.stack⟩

theorem openGroup {s : List Char} {st' : ReadState} (hst : st.openGroup s = .ok st') :
    st'.IsCounted := by
  obtain ⟨⟨start, t⟩, -, hst⟩ := bind_ok hst
  have hsame (captures : Nat) (names : List (List Char)) :
      ReadState.IsCounted { st with captures, names } := ⟨h.parts, h.stack⟩
  cases start with
  | numbered =>
    cases hst
    exact (hsame _ st.names).enter _ _ _
  | named name =>
    simp only at hst
    split at hst
    · cases hst
    · cases hst
      exact (hsame _ _).enter _ _ _
  | flagged flags =>
    cases hst
    exact h.enter _ _ _
  | directive flags =>
    cases hst
    have hpush := h.push (a := .flags flags) trivial t
    exact ⟨hpush.parts, hpush.stack⟩

/-- The parts so far, as one expression. -/
theorem isCounted_parts : (Ast.ofParts st.parts).IsCounted := Ast.isCounted_ofParts h.parts

/-- The branches so far, with the parts so far as the last one. -/
theorem isCounted_branches {branches : List Ast} {stack : List Frame}
    (hstack : st.stack = .branches branches :: stack) :
    ∀ a ∈ branches ++ [Ast.ofParts st.parts], a.IsCounted := by
  have hbranches := h.stack (.branches branches) (hstack ▸ List.mem_cons_self)
  exact List.forall_mem_append.2
    ⟨hbranches, fun _ ha => List.mem_singleton.1 ha ▸ h.isCounted_parts⟩

theorem isCounted_alternation {branches : List Ast} {stack : List Frame}
    (hstack : st.stack = .branches branches :: stack) :
    (Ast.alternation (branches ++ [Ast.ofParts st.parts])).IsCounted :=
  ⟨by simp, Ast.allCounted_iff.2 (h.isCounted_branches hstack)⟩

theorem closeGroup {s : List Char} {st' : ReadState} (hst : st.closeGroup s = .ok st') :
    st'.IsCounted := by
  have hclose (body : Ast) (hbody : body.IsCounted) (kind : GroupKind) (before : List Ast)
      (verbose : Bool) (stack : List Frame)
      (hmem : ∀ f ∈ Frame.group kind before verbose :: stack, ∀ a ∈ f.asts, a.IsCounted) :
      ReadState.IsCounted
        { st with stack, verbose, parts := before ++ [.group kind body], rest := s } := by
    obtain ⟨hbefore, hstack⟩ := List.forall_mem_cons.1 hmem
    exact ⟨List.forall_mem_append.2
      ⟨hbefore, fun _ ha => List.mem_singleton.1 ha ▸ hbody⟩, hstack⟩
  rw [ReadState.closeGroup] at hst
  split at hst
  · rename_i branches stack hstack
    have hmem := hstack ▸ h.stack
    simp only at hst
    split at hst
    · cases hst
      exact hclose _ (h.isCounted_alternation hstack) _ _ _ _
        fun f hf => hmem f (List.mem_cons_of_mem _ hf)
    · cases hst
  · simp only at hst
    split at hst
    · rename_i hstack
      cases hst
      exact hclose _ h.isCounted_parts _ _ _ _ (hstack ▸ h.stack)
    · cases hst

theorem nextBranch (s : List Char) : (st.nextBranch s).IsCounted := by
  rw [ReadState.nextBranch]
  split
  · rename_i branches stack hstack
    have hmem := hstack ▸ h.stack
    exact ⟨List.forall_mem_nil _, List.forall_mem_cons.2
      ⟨h.isCounted_branches hstack, fun f hf => hmem f (List.mem_cons_of_mem _ hf)⟩⟩
  · exact ⟨List.forall_mem_nil _, List.forall_mem_cons.2
      ⟨fun _ ha => List.mem_singleton.1 ha ▸ h.isCounted_parts, h.stack⟩⟩

theorem popPart {a : Ast} {parts : List Ast} (hst : st.popPart = .ok (a, parts)) :
    a.IsCounted ∧ ∀ b ∈ parts, b.IsCounted := by
  have hparts : ∀ b ∈ st.parts.reverse, b.IsCounted := fun b hb =>
    h.parts b (List.mem_reverse.1 hb)
  rw [ReadState.popPart] at hst
  split at hst
  · cases hst
  · cases hst
  · cases hst
  · rename_i hrev
    cases hst
    rw [hrev] at hparts
    obtain ⟨ha, hparts⟩ := List.forall_mem_cons.1 hparts
    exact ⟨ha, fun b hb => hparts b (List.mem_reverse.1 hb)⟩

/-- The last part is replaced by its repetition. -/
theorem repeated {a : Ast} {parts : List Ast} (hst : st.popPart = .ok (a, parts)) {least : Nat}
    {most : Option Nat} (hcounts : CountsInOrder least most) (greedy : Bool) (rest : List Char) :
    ReadState.IsCounted { st with parts := parts ++ [.repetition a least most greedy], rest } := by
  obtain ⟨ha, hparts⟩ := h.popPart hst
  exact ⟨List.forall_mem_append.2
    ⟨hparts, fun _ hb => List.mem_singleton.1 hb ▸ ⟨ha, hcounts⟩⟩, h.stack⟩

theorem repeatLast {least : Nat} {most : Option Nat} (hcounts : CountsInOrder least most)
    {s : List Char} {st' : ReadState} (hst : st.repeatLast least most s = .ok st') :
    st'.IsCounted := by
  obtain ⟨⟨a, parts⟩, hpop, hst⟩ := bind_ok hst
  simp only at hst
  split at hst
  · cases hst
    exact h.repeated hpop hcounts _ _
  · cases hst
    exact h.repeated hpop hcounts _ _

theorem repeatCounted {s : List Char} {st' : ReadState} (hst : st.repeatCounted s = .ok st') :
    st'.IsCounted := by
  obtain ⟨⟨a, parts⟩, hpop, hst⟩ := bind_ok hst
  obtain ⟨⟨⟨least, most, greedy⟩, t⟩, hcounted, hst⟩ := bind_ok hst
  cases hst
  exact h.repeated hpop (countsInOrder_of_countedRepetition hcounted) _ _

/-- **One step keeps the counts in order.** -/
theorem step {c : Char} {s : List Char} {st' : ReadState} (hst : st.step c s = .ok st') :
    st'.IsCounted := by
  have hmaybe : CountsInOrder 0 (some 1) := ⟨by decide, by rintro _ ⟨⟩; decide⟩
  have hany : CountsInOrder 0 none := ⟨by decide, fun _ h => by cases h⟩
  have hsome : CountsInOrder 1 none := ⟨by decide, fun _ h => by cases h⟩
  rw [ReadState.step] at hst
  rcases eq_or_eq_of_ite hst with hst | hst
  · exact h.openGroup hst
  rcases eq_or_eq_of_ite hst with hst | hst
  · exact h.closeGroup hst
  rcases eq_or_eq_of_ite hst with hst | hst
  · cases hst
    exact h.nextBranch s
  rcases eq_or_eq_of_ite hst with hst | hst
  · obtain ⟨⟨⟨negated, set⟩, t⟩, -, hst⟩ := bind_ok hst
    cases hst
    exact h.push (by trivial) t
  rcases eq_or_eq_of_ite hst with hst | hst
  · exact h.repeatLast hmaybe hst
  rcases eq_or_eq_of_ite hst with hst | hst
  · exact h.repeatLast hany hst
  rcases eq_or_eq_of_ite hst with hst | hst
  · exact h.repeatLast hsome hst
  rcases eq_or_eq_of_ite hst with hst | hst
  · exact h.repeatCounted hst
  rcases eq_or_eq_of_ite hst with hst | hst
  · obtain ⟨⟨p, t⟩, -, hst⟩ := bind_ok hst
    cases p <;> cases hst <;> exact h.push (by trivial) t
  rcases eq_or_eq_of_ite hst with hst | hst
  · cases hst
    exact h.push (by trivial) s
  rcases eq_or_eq_of_ite hst with hst | hst
  · cases hst
    exact h.push (by trivial) s
  rcases eq_or_eq_of_ite hst with hst | hst
  · cases hst
    exact h.push (by trivial) s
  · cases hst
    exact h.push (by trivial) s

theorem finish {a : Ast} (hst : st.finish = .ok a) : a.IsCounted := by
  rw [ReadState.finish] at hst
  split at hst
  · cases hst
    exact h.isCounted_parts
  · rename_i hstack
    cases hst
    exact h.isCounted_alternation hstack
  · cases hst

omit h in
/-- **All steps keep the counts in order.** -/
theorem run {n : Nat} {st : ReadState} (h : st.IsCounted) {a : Ast} (hst : st.run n = .ok a) :
    a.IsCounted := by
  induction n generalizing st with
  | zero => exact h.finish hst
  | succ n ih =>
    rw [ReadState.run] at hst
    split at hst
    · exact h.finish hst
    · obtain ⟨st', hstep, hst⟩ := bind_ok hst
      exact ih (h.step hstep) hst

end IsCounted

end ReadState

theorem Ast.isCounted_parse {s : List Char} {a : Ast} (h : Ast.parse s = .ok a) : a.IsCounted := by
  obtain ⟨b, hb, h⟩ := bind_ok h
  have hstart : ReadState.IsCounted { rest := s } :=
    ⟨List.forall_mem_nil _, List.forall_mem_nil _⟩
  split at h
  · cases h
    exact hstart.run hb
  · cases h

/-! ## Expressions that the constructors keep -/

/-- **Counts of an expression that is repeated**: what matches the empty text only is not repeated
without end, and nothing is repeated no time. -/
structure RepeatsInOrder (body : Regex) (least : Nat) (most : Option Nat) : Prop
    extends CountsInOrder least most where
  most_pos : most ≠ some 0
  body_pos : most = none → body.maxLength ≠ some 0

mutual

/-- **Expressions in a form that the constructors keep.** -/
def IsNormal : Regex → Prop
  | .repetition body least most _ => body.IsNormal ∧ RepeatsInOrder body least most
  | .capture _ body => body.IsNormal
  | .concat parts => AllNormal parts
  | .alternation branches => branches ≠ [] ∧ AllNormal branches
  | .charClass c => c.set.IsOrdered
  | .empty | .literal _ | .look _ => True

/-- All expressions are in such a form. -/
def AllNormal : List Regex → Prop
  | [] => True
  | r :: rs => r.IsNormal ∧ AllNormal rs

end

theorem allNormal_iff {rs : List Regex} : AllNormal rs ↔ ∀ r ∈ rs, r.IsNormal := by
  induction rs with
  | nil => exact iff_of_true trivial (List.forall_mem_nil _)
  | cons r rs ih => rw [AllNormal, ih, List.forall_mem_cons]

theorem isNormal_ofBytes (bytes : List UInt8) : (ofBytes bytes).IsNormal := by
  rw [ofBytes]
  split <;> exact trivial

theorem isNormal_fail : fail.IsNormal := List.forall_mem_nil _

theorem isNormal_ofClass {c : CharClass} (h : c.set.IsOrdered) : (ofClass c).IsNormal := by
  rw [ofClass]
  split
  · exact isNormal_fail
  · split
    · exact isNormal_ofBytes _
    · exact h

theorem IsNormal.repeated {body : Regex} (h : body.IsNormal) {least : Nat} {most : Option Nat}
    (hcounts : CountsInOrder least most) (greedy : Bool) :
    (body.repeated least most greedy).IsNormal := by
  have hend (least : Nat) (most : Option Nat) (hrepeats : CountsInOrder least most)
      (hbody : most = none → body.maxLength ≠ some 0) :
      Regex.IsNormal (if least = 0 ∧ most = some 0 then .empty
        else if least = 1 ∧ most = some 1 then body else .repetition body least most greedy) := by
    split
    · exact trivial
    · rename_i hzero
      split
      · exact h
      · refine ⟨h, hrepeats, ?_, hbody⟩
        rintro rfl
        have := (hrepeats.most_le 0 rfl).1
        exact hzero ⟨Nat.le_zero.1 this, rfl⟩
  rw [Regex.repeated]
  by_cases hempty : body.maxLength = some 0
  · rw [if_pos hempty]
    refine hend _ _ ⟨?_, ?_⟩ fun hn => by cases hn
    · exact Nat.le_trans (Nat.min_le_left _ _) hcounts.least_le
    · rintro m ⟨⟩
      cases most with
      | none => exact ⟨Nat.min_le_right _ _, by decide⟩
      | some k =>
        have hk := hcounts.most_le k rfl
        simp only [Option.map_some, Option.getD_some]
        have : (1 : Nat) ≤ maxCount := by decide
        omega
  · rw [if_neg hempty]
    exact hend _ _ hcounts fun _ => hempty

theorem IsNormal.parts {r : Regex} (h : r.IsNormal) : ∀ p ∈ r.parts, p.IsNormal := by
  cases r with
  | concat parts => exact allNormal_iff.1 h
  | empty => exact List.forall_mem_nil _
  | _ => exact fun p hp => List.mem_singleton.1 hp ▸ h

theorem isNormal_joinLiterals {rs : List Regex} (h : ∀ r ∈ rs, r.IsNormal) :
    ∀ r ∈ joinLiterals rs, r.IsNormal := by
  fun_induction joinLiterals rs with
  | case1 => exact h
  | case2 a rs b more hmore ih =>
    rw [hmore] at ih
    have hmore := (List.forall_mem_cons.1 (ih (List.forall_mem_cons.1 h).2)).2
    exact List.forall_mem_cons.2 ⟨trivial, hmore⟩
  | case3 a rs hmore ih =>
    exact List.forall_mem_cons.2 ⟨trivial, ih (List.forall_mem_cons.1 h).2⟩
  | case4 r rs hr ih =>
    obtain ⟨hr, hrs⟩ := List.forall_mem_cons.1 h
    exact List.forall_mem_cons.2 ⟨hr, ih hrs⟩

theorem isNormal_ofParts {rs : List Regex} (h : ∀ r ∈ rs, r.IsNormal) : (ofParts rs).IsNormal := by
  have hparts : ∀ p ∈ joinLiterals (rs.flatMap Regex.parts), p.IsNormal := by
    refine isNormal_joinLiterals fun p hp => ?_
    obtain ⟨r, hr, hp⟩ := List.mem_flatMap.1 hp
    exact (h r hr).parts p hp
  rw [ofParts]
  split
  · exact trivial
  · rename_i hp
    exact hparts _ (hp ▸ List.mem_cons_self)
  · exact allNormal_iff.2 hparts

/-- The branches of an expression: there is at least one. -/
theorem IsNormal.branches {r : Regex} (h : r.IsNormal) :
    r.branches ≠ [] ∧ ∀ b ∈ r.branches, b.IsNormal := by
  cases r with
  | alternation branches => exact ⟨h.1, allNormal_iff.1 h.2⟩
  | _ => exact ⟨List.cons_ne_nil _ _, fun b hb => List.mem_singleton.1 hb ▸ h⟩

theorem commonParts_subset (rs qs : List Regex) : commonParts rs qs ⊆ rs := by
  fun_induction commonParts rs qs with
  | case1 r rs q qs h ih => exact List.cons_subset_cons r ih
  | case2 => exact List.nil_subset _
  | case3 => exact List.nil_subset _

theorem foldl_commonParts_subset (rest : List (List Regex)) (first : List Regex) :
    rest.foldl commonParts first ⊆ first := by
  induction rest generalizing first with
  | nil => exact List.Subset.refl _
  | cons qs rest ih => exact List.Subset.trans (ih _) (commonParts_subset first qs)

theorem isNormal_commonStart {rs : List Regex} (h : ∀ r ∈ rs, r.IsNormal) :
    ∀ p ∈ commonStart rs, p.IsNormal := by
  rw [commonStart]
  split
  · rename_i first rest hsplit
    cases rs with
    | nil => cases hsplit
    | cons r rs =>
      have hfirst : r = .concat first := by
        rw [List.mapM_cons] at hsplit
        cases r with
        | concat parts =>
          obtain ⟨parts', hparts, hsplit⟩ := Option.bind_eq_some_iff.1 hsplit
          obtain ⟨more, -, hmore⟩ := Option.bind_eq_some_iff.1 hsplit
          cases hparts
          rw [(List.cons.inj (Option.some.inj hmore)).1]
        | _ => cases hsplit
      have hr := h r List.mem_cons_self
      rw [hfirst] at hr
      have hr := allNormal_iff.1 hr
      exact fun p hp => hr p (foldl_commonParts_subset rest first hp)
  · exact List.forall_mem_nil _

theorem isNormal_choose {n : Nat} {rs : List Regex} (hne : rs ≠ []) (h : ∀ r ∈ rs, r.IsNormal) :
    (choose n rs).IsNormal := by
  induction n generalizing rs with
  | zero => exact ⟨hne, allNormal_iff.2 h⟩
  | succ n ih =>
    have hbranches : ∀ b ∈ rs.flatMap Regex.branches, b.IsNormal := by
      intro b hb
      obtain ⟨r, hr, hb⟩ := List.mem_flatMap.1 hb
      exact (h r hr).branches.2 b hb
    rw [choose]
    split
    · exact isNormal_fail
    · rename_i hb
      exact hbranches _ (hb ▸ List.mem_cons_self)
    · rename_i hfail hone
      split
      · rename_i hmerged
        exact isNormal_ofClass (isOrdered_mergedClass? hmerged)
      · split
        · exact ⟨hfail, allNormal_iff.2 hbranches⟩
        · refine isNormal_ofParts (List.forall_mem_append.2 ⟨isNormal_commonStart hbranches, ?_⟩)
          refine fun p hp => List.mem_singleton.1 hp ▸ ih (by simpa using hfail) ?_
          intro r hr
          obtain ⟨b, hb, rfl⟩ := List.mem_map.1 hr
          exact isNormal_ofParts fun p hp => (hbranches b hb).parts p (List.mem_of_mem_drop hp)

theorem isNormal_ofBranches {rs : List Regex} (hne : rs ≠ []) (h : ∀ r ∈ rs, r.IsNormal) :
    (ofBranches rs).IsNormal := isNormal_choose hne h

/-! ## What is read -/

open Intervals

theorem isNormal_literal (m : Mode) (l : Literal) : (m.literal l).IsNormal := by
  have htext (bytes : List UInt8) : (Regex.literal bytes).IsNormal := trivial
  -- The tables of letter cases must not be evaluated, so the classes become variables.
  unfold Mode.literal
  dsimp only
  have hclasses : IsOrdered (Intervals.foldChars [(l.char.toNat, l.char.toNat)]) ∧
      IsOrdered (Intervals.foldBytes [(l.char.toNat, l.char.toNat)]) :=
    ⟨isOrdered_normalize _, isOrdered_normalize _⟩
  generalize Intervals.foldChars _ = chars, Intervals.foldBytes _ = bytes,
    Text.encode _ = text at hclasses ⊢
  split
  · split
    · exact isNormal_ofClass hclasses.1
    · exact htext text
  · split
    · exact htext _
    · split
      · exact isNormal_ofClass hclasses.2
      · exact htext text

theorem isNormal_dot (m : Mode) : m.dot.IsNormal := by
  simp only [Mode.dot]
  split
  · exact isNormal_ofClass (isOrdered_negateChars _)
  · exact isNormal_ofClass (isOrdered_negateBytes _)

theorem isNormal_escapeClass {m m' : Mode} {kind : EscapeClass} {negated : Bool} {r : Regex}
    (h : (Ast.escapeClass kind negated).elaborate m = .ok (r, m')) : r.IsNormal := by
  have hchars : IsOrdered (if negated then kind.chars.negateChars else kind.chars) := by
    split
    · exact isOrdered_negateChars _
    · exact isOrdered_escapeChars kind
  have hbytes : IsOrdered (if negated then kind.bytes.negateBytes else kind.bytes) := by
    split
    · exact isOrdered_negateBytes _
    · exact isOrdered_escapeBytes kind
  unfold Ast.elaborate at h
  generalize (if negated then kind.chars.negateChars else kind.chars) = chars,
    (if negated then kind.bytes.negateBytes else kind.bytes) = bytes at hchars hbytes h
  split at h <;> cases h
  · exact isNormal_ofClass hchars
  · exact isNormal_ofClass hbytes

mutual

theorem isNormal_elaborate {m m' : Mode} {a : Ast} {r : Regex} (ha : a.IsCounted)
    (h : a.elaborate m = .ok (r, m')) : r.IsNormal := by
  cases a with
  | empty | flags | assertion => cases h; exact trivial
  | literal l => cases h; exact isNormal_literal m l
  | dot => cases h; exact isNormal_dot m
  | escapeClass kind negated =>
    exact isNormal_escapeClass h
  | property query negated =>
    obtain ⟨set, hset, h⟩ := bind_ok h
    cases h
    exact isNormal_ofClass (isOrdered_property hset)
  | bracketed negated set =>
    rw [Ast.elaborate] at h
    split at h
    · obtain ⟨chars, hchars, h⟩ := bind_ok h
      cases h
      exact isNormal_ofClass (isOrdered_finishChars m negated (isOrdered_chars hchars))
    · obtain ⟨bytes, hbytes, h⟩ := bind_ok h
      cases h
      exact isNormal_ofClass (isOrdered_finishBytes m negated (isOrdered_bytes hbytes))
  | repetition body least most greedy =>
    obtain ⟨⟨s, m''⟩, hs, h⟩ := bind_ok h
    cases h
    exact (isNormal_elaborate ha.1 hs).repeated ha.2 _
  | group kind body =>
    cases kind with
    | capture index =>
      obtain ⟨⟨s, m''⟩, hs, h⟩ := bind_ok h
      cases h
      have hbody := isNormal_elaborate (a := body) ha hs
      exact hbody
    | flags fs =>
      obtain ⟨⟨s, m''⟩, hs, h⟩ := bind_ok h
      cases h
      exact isNormal_elaborate (a := body) ha hs
  | alternation branches =>
    obtain ⟨⟨rs, m''⟩, hrs, h⟩ := bind_ok h
    cases h
    obtain ⟨hlength, hall⟩ := isNormal_elaborateAll ha.2 hrs
    refine isNormal_ofBranches ?_ hall
    rintro rfl
    exact ha.1 (List.length_eq_zero_iff.1 hlength.symm)
  | concat parts =>
    obtain ⟨⟨rs, m''⟩, hrs, h⟩ := bind_ok h
    cases h
    exact isNormal_ofParts (isNormal_elaborateAll ha hrs).2

theorem isNormal_elaborateAll {m m' : Mode} {as : List Ast} {rs : List Regex}
    (has : Ast.AllCounted as) (h : Ast.elaborateAll m as = .ok (rs, m')) :
    rs.length = as.length ∧ ∀ r ∈ rs, r.IsNormal := by
  cases as with
  | nil =>
    cases h
    exact ⟨rfl, List.forall_mem_nil _⟩
  | cons a as =>
    obtain ⟨⟨r, m₁⟩, hr, h⟩ := bind_ok h
    obtain ⟨⟨rs', m₂⟩, hrs, h⟩ := bind_ok h
    cases h
    obtain ⟨hlength, hall⟩ := isNormal_elaborateAll has.2 hrs
    exact ⟨congrArg (· + 1) hlength,
      List.forall_mem_cons.2 ⟨isNormal_elaborate has.1 hr, hall⟩⟩

end

/-- **Every expression that is read is in a form that the constructors keep.** -/
theorem isNormal_parse {source : String} {r : Regex} (h : parse source = .ok r) : r.IsNormal := by
  obtain ⟨a, ha, h⟩ := bind_ok h
  obtain ⟨⟨s, m⟩, hs, h⟩ := bind_ok h
  cases h
  exact isNormal_elaborate (Ast.isCounted_parse ha) hs

end GrammarKit.Regex
