import GrammarKit.Proofs.Peg.Progress
import Mathlib.Logic.Relation

/-!
# What the passes over plans keep

Nesting, joining and factoring leave what a plain plan takes as it is. Making lists does not: items
that each have a separator behind them, and a last item, are not always an item and then items that
each have a separator before them, since the first form gives up where the last item is missing. On
ASCII texts the two are the same if no loop could go on with what comes next.

* `Plan.skips`, `Plan.starts`, `Plan.goesOn`: how a plan can match, by the next character.
* `Plan.IsApart`: no loop can go on with what comes next.
* `Plan.Yields`: what a plan can take if its choices are free.
* `Plan.Tracks`: what the passes keep, with a lemma per step.
* **`Plan.agrees_listed`**: making lists of such plans leaves what they take.
* **`Expr.IsLexical.agrees_routine`**: the plan of a token takes what its expression takes.
-/

namespace GrammarKit.Peg

/-! ## How a plan can match -/

namespace Plan

/-- Whether a plan may match in front of an ASCII character without taking it. -/
def skips : Plan → Bool
  | text s => s.toList.isEmpty
  | optional _ | star _ => true
  | seq left right => left.skips && right.skips
  | choice left right => left.skips || right.skips
  | anyCase _ | range .. | ref _ | peek .. | push _ | ahead _ | notAhead _ | upTo _
  | undoing _ => false

/-- The characters with which the text that a plan takes may start. -/
def starts : Plan → Char → Prop
  | text s, c => s.toList.head? = some c
  | range first last, c => (first ≤ c && c ≤ last) = true
  | ref _, _ => True
  | optional body, c | star body, c => body.starts c
  | seq left right, c => left.starts c ∨ left.skips = true ∧ right.starts c
  | choice left right, c => left.starts c ∨ right.starts c
  | anyCase _, _ | peek .., _ | push _, _ | ahead _, _ | notAhead _, _ | upTo _, _
  | undoing _, _ => False

/-- The characters with which a loop at the end of a plan could go on. -/
def goesOn : Plan → Char → Prop
  | optional body, c => body.goesOn c
  | star body, c => body.starts c ∨ body.goesOn c
  | seq left right, c => right.goesOn c ∨ right.skips = true ∧ left.goesOn c
  | choice left right, c => left.goesOn c ∨ right.goesOn c
  | text _, _ | range .., _ | ref _, _ | anyCase _, _ | peek .., _ | push _, _ | ahead _, _
  | notAhead _, _ | upTo _, _ | undoing _, _ => False

/-- **Plans in which no loop could go on with what comes next**, if that is ASCII. -/
def IsApart : Plan → Prop
  | optional body | star body => body.IsApart
  | seq left right =>
    left.IsApart ∧ right.IsApart ∧ ∀ c : Char, c.toNat < 0x80 → left.goesOn c → ¬ right.starts c
  | choice left right => left.IsApart ∧ right.IsApart
  | text _ | range .. | ref _ | anyCase _ | peek .. | push _ | ahead _ | notAhead _ | upTo _
  | undoing _ => True

/-- **The plan can take the front of a text** and leave the rest, if each of its choices may be made
in any way. -/
def Yields : Plan → List Char → List Char → Prop
  | optional body => fun s t => t = s ∨ body.Yields s t
  | star body => Relation.ReflTransGen body.Yields
  | seq left right => fun s t => ∃ u, left.Yields s u ∧ right.Yields u t
  | choice left right => fun s t => left.Yields s t ∨ right.Yields s t
  | p => fun s t => p.takes s = .read t

/-! ## What the passes keep -/

/-- **What is kept of a plan**: what it takes, and how it can match, if not less. -/
structure Tracks (p q : Plan) : Prop where
  takes : q.takes = p.takes
  yields : ∀ s t, q.Yields s t → p.Yields s t
  skips : q.skips = p.skips
  starts : ∀ c, q.starts c → p.starts c
  goesOn : ∀ c, q.goesOn c → p.goesOn c
  isApart : p.IsApart → q.IsApart

namespace Tracks

variable {p p' q q' r : Plan}

theorem refl (p : Plan) : p.Tracks p := ⟨rfl, fun _ _ => id, rfl, fun _ => id, fun _ => id, id⟩

theorem trans (h : p.Tracks q) (h' : q.Tracks r) : p.Tracks r where
  takes := h'.takes.trans h.takes
  yields s t := h.yields s t ∘ h'.yields s t
  skips := h'.skips.trans h.skips
  starts c := h.starts c ∘ h'.starts c
  goesOn c := h.goesOn c ∘ h'.goesOn c
  isApart := h'.isApart ∘ h.isApart

/-! ### Parts -/

theorem seq (h : p.Tracks p') (h' : q.Tracks q') : (Plan.seq p q).Tracks (Plan.seq p' q') where
  takes := congrArg₂ Taking.seq h.takes h'.takes
  yields _ _ := fun ⟨u, hu, ht⟩ => ⟨u, h.yields _ _ hu, h'.yields _ _ ht⟩
  skips := congrArg₂ Bool.and h.skips h'.skips
  starts c := Or.imp (h.starts c) (And.imp (fun hs => h.skips ▸ hs) (h'.starts c))
  goesOn c := Or.imp (h'.goesOn c) (And.imp (fun hs => h'.skips ▸ hs) (h.goesOn c))
  isApart ha := ⟨h.isApart ha.1, h'.isApart ha.2.1,
    fun c hc hg hs => ha.2.2 c hc (h.goesOn c hg) (h'.starts c hs)⟩

theorem choice (h : p.Tracks p') (h' : q.Tracks q') :
    (Plan.choice p q).Tracks (Plan.choice p' q') where
  takes := congrArg₂ Taking.choice h.takes h'.takes
  yields s t := Or.imp (h.yields s t) (h'.yields s t)
  skips := congrArg₂ Bool.or h.skips h'.skips
  starts c := Or.imp (h.starts c) (h'.starts c)
  goesOn c := Or.imp (h.goesOn c) (h'.goesOn c)
  isApart := And.imp h.isApart h'.isApart

theorem optional (h : p.Tracks p') : (Plan.optional p).Tracks (Plan.optional p') :=
  ⟨congrArg Taking.optional h.takes, fun s t => Or.imp_right (h.yields s t), rfl, h.starts,
    h.goesOn, h.isApart⟩

theorem star (h : p.Tracks p') : (Plan.star p).Tracks (Plan.star p') :=
  ⟨congrArg Taking.star h.takes, fun s t => Relation.ReflTransGen.mono h.yields s t, rfl,
    h.starts, fun c => Or.imp (h.starts c) (h.goesOn c), h.isApart⟩

theorem notAhead (h : p.Tracks p') : (Plan.notAhead p).Tracks (Plan.notAhead p') :=
  have htakes := congrArg Taking.notAhead h.takes
  ⟨htakes, fun s _ ht => (congrFun htakes s).symm.trans ht, rfl, fun _ => id, fun _ => id, id⟩

/-! ### Nesting -/

theorem seq_assoc (p q r : Plan) :
    (Plan.seq (Plan.seq p q) r).Tracks (Plan.seq p (Plan.seq q r)) where
  takes := funext fun s => (Reading.bind_assoc (p.takes s) q.takes r.takes).symm
  yields _ _ := fun ⟨u, hu, v, hv, ht⟩ => ⟨v, ⟨u, hu, hv⟩, ht⟩
  skips := (Bool.and_assoc _ _ _).symm
  starts c := by
    simp only [Plan.starts, Plan.skips, Bool.and_eq_true]
    tauto
  goesOn c := by
    simp only [Plan.goesOn, Plan.skips, Bool.and_eq_true]
    tauto
  isApart := by
    rintro ⟨⟨hp, hq, hpq⟩, hr, hqr⟩
    refine ⟨hp, ⟨hq, hr, fun c hc hg => hqr c hc (.inl hg)⟩, fun c hc hg => ?_⟩
    rintro (hs | ⟨hskips, hs⟩)
    · exact hpq c hc hg hs
    · exact hqr c hc (.inr ⟨hskips, hg⟩) hs

theorem seq_assoc_symm (p q r : Plan) :
    (Plan.seq p (Plan.seq q r)).Tracks (Plan.seq (Plan.seq p q) r) where
  takes := (seq_assoc p q r).takes.symm
  yields _ _ := fun ⟨v, ⟨u, hu, hv⟩, ht⟩ => ⟨u, hu, v, hv, ht⟩
  skips := (seq_assoc p q r).skips.symm
  starts c := by
    simp only [Plan.starts, Plan.skips, Bool.and_eq_true]
    tauto
  goesOn c := by
    simp only [Plan.goesOn, Plan.skips, Bool.and_eq_true]
    tauto
  isApart := by
    rintro ⟨hp, ⟨hq, hr, hqr⟩, hpqr⟩
    refine ⟨⟨hp, hq, fun c hc hg hs => hpqr c hc hg (.inl hs)⟩, hr, fun c hc => ?_⟩
    rintro (hg | ⟨hskips, hg⟩)
    · exact hqr c hc hg
    · exact fun hs => hpqr c hc hg (.inr ⟨hskips, hs⟩)

theorem choice_assoc (p q r : Plan) :
    (Plan.choice (Plan.choice p q) r).Tracks (Plan.choice p (Plan.choice q r)) where
  takes := funext fun s => (Reading.orElse_assoc (p.takes s) (q.takes s) (r.takes s)).symm
  yields _ _ := or_assoc.2
  skips := (Bool.or_assoc _ _ _).symm
  starts _ := or_assoc.2
  goesOn _ := or_assoc.2
  isApart := and_assoc.1

/-- Two rows, one after the other, are one row. -/
theorem seq_row {ps qs : List Plan} (hps : ps ≠ []) (hqs : qs ≠ []) :
    (Plan.seq (row ps) (row qs)).Tracks (row (ps ++ qs)) := by
  induction ps with
  | nil => exact absurd rfl hps
  | cons p ps ih =>
    obtain ⟨q, qs, rfl⟩ := List.exists_cons_of_ne_nil hqs
    cases ps with
    | nil => exact refl _
    | cons p' ps =>
      exact (seq_assoc _ _ _).trans ((refl p).seq (ih (List.cons_ne_nil _ _)))

theorem row {ps qs : List Plan} (h : List.Forall₂ Tracks ps qs) :
    (Plan.row ps).Tracks (Plan.row qs) := by
  induction h with
  | nil => exact refl _
  | @cons p q ps qs hp hps ih =>
    cases hps with
    | nil => exact hp
    | cons => exact hp.seq ih

theorem forall₂_replicate (h : p.Tracks q) (n : Nat) :
    List.Forall₂ Tracks (List.replicate n p) (List.replicate n q) := by
  induction n with
  | zero => exact .nil
  | succ n ih => exact .cons h ih

theorem repeated (h : p.Tracks q) (times : Times) :
    (p.repeated times).Tracks (q.repeated times) := by
  cases times with
  | optional => exact h.optional
  | star => exact h.star
  | plus => exact h.seq h.star
  | exactly n => exact row (h.forall₂_replicate n)
  | atLeast n => exact row (List.rel_append (h.forall₂_replicate n) (.cons h.star .nil))
  | atMost n => exact row (h.optional.forall₂_replicate n)
  | between n m =>
    exact row (List.rel_append (h.forall₂_replicate _) (h.optional.forall₂_replicate _))

/-! ### Joining and factoring -/

theorem join (p q : Plan) : (Plan.seq p q).Tracks (p.join q) := by
  rw [Plan.join.eq_def]
  split
  · rename_i s t
    have htakes : (text (s ++ t)).takes = (Plan.seq (text s) (text t)).takes := by
      show Taking.text (s ++ t).toList = Taking.seq (Taking.text s.toList) (Taking.text t.toList)
      rw [String.toList_append]
      exact Taking.text_append s.toList t.toList
    refine ⟨htakes, fun u v huv => ?_, ?_, fun c => ?_, fun _ h => h.elim, fun _ => trivial⟩
    · exact Reading.bind_eq_read ((congrFun htakes u).symm.trans huv)
    · cases hs : s.toList <;> simp [Plan.skips, hs]
    · cases hs : s.toList <;> simp [Plan.starts, Plan.skips, hs]
  · exact ⟨funext fun u => rfl, fun _ _ h => (by cases h), rfl, fun _ h => h.elim,
      fun _ h => h.elim, fun _ => trivial⟩
  · exact refl _

theorem joined (p : Plan) : p.Tracks p.joined := by
  induction p with
  | push | ahead | undoing => exact ⟨rfl, fun _ _ => id, rfl, fun _ => id, fun _ => id, id⟩
  | notAhead body ih => exact ih.notAhead
  | optional body ih => exact ih.optional
  | star body ih => exact ih.star
  | seq left right ihl ihr => exact (ihl.seq ihr).trans (join _ _)
  | choice left right ihl ihr => exact ihl.choice ihr
  | text | anyCase | range | ref | peek | upTo => exact refl _

/-- What both of two plans start with is taken once. -/
theorem factor_seq (a b d : Plan) :
    (Plan.choice (Plan.seq a b) (Plan.seq a d)).Tracks (Plan.seq a (Plan.choice b d)) where
  takes := funext fun s => by
    show (a.takes s).bind (fun u => (b.takes u).orElse (d.takes u)) =
      ((a.takes s).bind b.takes).orElse ((a.takes s).bind d.takes)
    cases a.takes s <;> rfl
  yields s t := by
    rintro ⟨u, ha, hb | hd⟩
    · exact .inl ⟨u, ha, hb⟩
    · exact .inr ⟨u, ha, hd⟩
  skips := Bool.and_or_distrib_left _ _ _
  starts c := by
    simp only [Plan.starts]
    tauto
  goesOn c := by
    simp only [Plan.goesOn, Plan.skips, Bool.or_eq_true]
    tauto
  isApart := by
    rintro ⟨⟨ha, hb, hab⟩, -, hd, had⟩
    exact ⟨ha, ⟨hb, hd⟩, fun c hc hg => not_or.2 ⟨hab c hc hg, had c hc hg⟩⟩

/-- A plan behind one that it starts makes the rest of that one optional. -/
theorem factor_start (a b : Plan) :
    (Plan.choice (Plan.seq a b) a).Tracks (Plan.seq a (Plan.optional b)) where
  takes := funext fun s => by
    show (a.takes s).bind (fun u => (b.takes u).orElse (.read u)) =
      ((a.takes s).bind b.takes).orElse (a.takes s)
    cases a.takes s <;> rfl
  yields s t := by
    rintro ⟨u, ha, rfl | hb⟩
    · exact .inr ha
    · exact .inl ⟨u, ha, hb⟩
  skips := by
    simp only [Plan.skips]
    cases a.skips <;> simp
  starts c := by
    simp only [Plan.starts]
    tauto
  goesOn c := by
    simp only [Plan.goesOn, Plan.skips]
    tauto
  isApart := by
    rintro ⟨⟨ha, hb, hab⟩, -⟩
    exact ⟨ha, hb, hab⟩

/-- A plan that is the start of the one behind it hides that one. -/
theorem factor_hidden (p d : Plan) : (Plan.choice p (Plan.seq p d)).Tracks p where
  takes := funext fun s => by
    show p.takes s = (p.takes s).orElse ((p.takes s).bind d.takes)
    cases p.takes s <;> rfl
  yields _ _ := Or.inl
  skips := by
    simp only [Plan.skips]
    cases p.skips <;> simp
  starts _ := Or.inl
  goesOn _ := Or.inl
  isApart := And.left

theorem factor (tight : Bool) (p q : Plan) :
    (Plan.choice p q).Tracks (Plan.factor tight p q) := by
  rw [Plan.factor.eq_def]
  split
  · rename_i a b c d
    split
    · rename_i hac
      exact hac ▸ factor_seq a b d
    · exact refl _
  · rename_i a b _
    split
    · rename_i hab
      exact hab.2 ▸ factor_start a b
    · exact refl _
  · rename_i l c d _
    split
    · rename_i hlc
      exact hlc ▸ factor_hidden p d
    · exact refl _
  · exact refl _

theorem opened (tight : Bool) (p : Plan) : p.Tracks (p.opened tight) := by
  cases p with
  | choice left right => exact factor tight left right
  | _ => exact refl _

theorem mapParts {f : Plan → Plan} (hf : ∀ p : Plan, p.Tracks (f p)) (p : Plan) :
    p.Tracks (p.mapParts f) := by
  cases p with
  | push | ahead | undoing => exact ⟨rfl, fun _ _ => id, rfl, fun _ => id, fun _ => id, id⟩
  | notAhead body => exact (hf body).notAhead
  | optional body => exact (hf body).optional
  | star body => exact (hf body).star
  | seq left right => exact (hf left).seq (hf right)
  | choice left right => exact (hf left).choice (hf right)
  | text | anyCase | range | ref | peek | upTo => exact refl _

theorem factoredTo (tight : Bool) (n : Nat) (p : Plan) : p.Tracks (p.factoredTo tight n) := by
  induction n generalizing p with
  | zero => exact refl _
  | succ n ih => exact (opened tight p).trans (mapParts ih _)

end Tracks

end Plan

/-! ## Rows -/

namespace Plan

/-- A row is its first plan in front of the others. -/
theorem Tracks.row_cons (p : Plan) (ps : List Plan) :
    (Plan.seq p (Plan.row ps)).Tracks (Plan.row (p :: ps)) := by
  cases ps with
  | cons q ps => exact .refl _
  | nil =>
    -- nothing stands behind the only plan
    refine ⟨funext fun s => ?_, fun s t ht => ⟨t, ht, rfl⟩, (Bool.and_true _).symm,
      fun _ => .inl, fun _ hg => .inr ⟨rfl, hg⟩, And.left⟩
    show p.takes s = (p.takes s).bind (Taking.text [])
    cases p.takes s <;> rfl

theorem takes_row_cons (p : Plan) (ps : List Plan) :
    (row (p :: ps)).takes = Taking.seq p.takes (row ps).takes :=
  (Tracks.row_cons p ps).takes

theorem skips_row (ps : List Plan) : (row ps).skips = ps.all skips := by
  fun_induction row ps with
  | case1 => rfl
  | case2 p => simp
  | case3 p ps hps ih => rw [skips, ih, List.all_cons]

theorem exists_starts_of_row {ps : List Plan} {c : Char} (h : (row ps).starts c) :
    ∃ p ∈ ps, p.starts c := by
  fun_induction row ps with
  | case1 => cases h
  | case2 p => exact ⟨p, List.mem_singleton_self p, h⟩
  | case3 p ps hps ih =>
    rcases h with h | ⟨-, h⟩
    · exact ⟨p, List.mem_cons_self, h⟩
    · obtain ⟨q, hq, hc⟩ := ih h
      exact ⟨q, List.mem_cons_of_mem _ hq, hc⟩

theorem exists_goesOn_of_row {ps : List Plan} {c : Char} (h : (row ps).goesOn c) :
    ∃ p ∈ ps, p.goesOn c := by
  fun_induction row ps with
  | case1 => exact h.elim
  | case2 p => exact ⟨p, List.mem_singleton_self p, h⟩
  | case3 p ps hps ih =>
    rcases h with h | ⟨-, h⟩
    · obtain ⟨q, hq, hc⟩ := ih h
      exact ⟨q, List.mem_cons_of_mem _ hq, hc⟩
    · exact ⟨p, List.mem_cons_self, h⟩

/-- The loops of a row cannot go on with what comes next if none can go on with a plan behind it. -/
theorem isApart_row {ps : List Plan} (h : ∀ p ∈ ps, p.IsApart)
    (hpairs : ps.Pairwise fun p q => ∀ c : Char, c.toNat < 0x80 → p.goesOn c → ¬ q.starts c) :
    (row ps).IsApart := by
  fun_induction row ps with
  | case1 => exact trivial
  | case2 p => exact h p List.mem_cons_self
  | case3 p ps hps ih =>
    obtain ⟨hp, hpairs⟩ := List.pairwise_cons.1 hpairs
    refine ⟨h p List.mem_cons_self, ih (fun q hq => h q (List.mem_cons_of_mem _ hq)) hpairs, ?_⟩
    intro c hc hg hs
    obtain ⟨q, hq, hs⟩ := exists_starts_of_row hs
    exact hp q hq c hc hg hs

/-- In a row of plans that get on or skip, so does the row. -/
theorem getsOn_row_eq_not_skips {ps : List Plan} (h : ∀ p ∈ ps, p.getsOn = !p.skips) :
    (row ps).getsOn = !(row ps).skips := by
  rw [getsOn_row, skips_row]
  induction ps with
  | nil => rfl
  | cons p ps ih =>
    obtain ⟨hp, hps⟩ := List.forall_mem_cons.1 h
    rw [List.any_cons, List.all_cons, Bool.not_and, hp, ih hps]

end Plan

/-! ## How a plan matches -/

namespace Plan

variable {p : Plan}

/-- A plain plan that may skip a character never refuses. -/
theorem IsPlain.takes_ne_refused (hp : p.IsPlain) (h : p.skips = true) (s : List Char) :
    p.takes s ≠ .refused := by
  induction p generalizing s with
  | text w =>
    have hw : w.toList = [] := by simpa [skips] using h
    rw [takes, hw]
    exact fun hread => by cases hread
  | optional body ih =>
    intro hread
    rw [takes, Taking.optional] at hread
    cases hbody : body.takes s <;> rw [hbody] at hread <;> cases hread
  | star body ih =>
    intro hread
    rw [takes, Taking.star] at hread
    cases hbody : body.takes s with
    | read t =>
      rw [hbody] at hread
      exact Taking.loop_ne_refused _ _ _ hread
    | refused => rw [hbody] at hread; cases hread
    | stuck => rw [hbody] at hread; cases hread
  | seq left right ihl ihr =>
    obtain ⟨hl, hr⟩ := Bool.and_eq_true_iff.1 h
    intro hread
    rw [takes, Taking.seq] at hread
    cases hleft : left.takes s with
    | read t =>
      rw [hleft] at hread
      exact ihr hp.2 hr t hread
    | refused => exact ihl hp.1 hl s hleft
    | stuck => rw [hleft] at hread; cases hread
  | choice left right ihl ihr =>
    intro hread
    rw [takes, Taking.choice] at hread
    cases hleft : left.takes s with
    | read t => rw [hleft] at hread; cases hread
    | stuck => rw [hleft] at hread; cases hread
    | refused =>
      rw [hleft] at hread
      rcases Bool.or_eq_true_iff.1 h with hl | hr
      · exact ihl hp.1 hl s hleft
      · exact ihr hp.2 hr s hread
  | range | ref | notAhead | anyCase | peek | push | ahead | upTo | undoing => cases h

/-- **A plain plan that matches in front of an ASCII character** skips it or starts with it. -/
theorem IsPlain.skips_or_starts (hp : p.IsPlain) {c : Char} {s t : List Char}
    (hc : c.toNat < 0x80) (h : p.takes (c :: s) = .read t) :
    t = c :: s ∧ p.skips = true ∨ t <:+ s ∧ p.starts c := by
  have hends := p.leavesEnd_takes _ _ h
  induction p generalizing t with
  | text w =>
    rw [takes, Taking.text_eq_read] at h
    cases hw : w.toList with
    | nil =>
      rw [hw] at h
      exact .inl ⟨h.symm, by simp [skips, hw]⟩
    | cons d w' =>
      rw [hw, List.cons_append, List.cons.injEq] at h
      refine .inr ⟨h.2 ▸ List.suffix_append _ _, ?_⟩
      rw [starts, hw, h.1]
      rfl
  | range first last =>
    rw [takes, Taking.char] at h
    split at h
    · rename_i hrange
      cases h
      exact .inr ⟨List.suffix_rfl, hrange⟩
    · cases h
  | ref name =>
    refine .inr ⟨?_, trivial⟩
    have hchar (q : Char → Bool) (hread : Taking.char q (c :: s) = .read t) : t <:+ s := by
      rw [Taking.char] at hread
      split at hread <;> cases hread
      exact List.suffix_rfl
    rw [takes] at h
    split at h
    · exact hchar _ h
    · exact hchar _ h
  | notAhead body =>
    obtain rfl := hp
    have hahead : Taking.char (·.toNat < 0x80) (c :: s) = .read s := by
      rw [Taking.char, if_pos (by simpa using hc)]
    rw [takes, Taking.notAhead, takes, if_pos rfl, hahead] at h
    cases h
  | optional body ih =>
    rcases Reading.orElse_eq_read h with h | h
    · exact (ih hp h hends).imp (And.imp_right fun _ => rfl) id
    · cases h
      exact .inl ⟨rfl, rfl⟩
  | star body ih =>
    rw [takes, Taking.star] at h
    cases hbody : body.takes (c :: s) with
    | refused =>
      rw [hbody] at h
      cases h
      exact .inl ⟨rfl, rfl⟩
    | stuck => rw [hbody] at h; cases h
    | read u =>
      rw [hbody] at h
      have hloop : Taking.loop body.takes (u.length + 1) u = .read t := h
      have htu := Taking.LeavesEnd.loop body.leavesEnd_takes _ _ _ hloop
      rcases ih hp hbody (body.leavesEnd_takes _ _ hbody) with ⟨rfl, -⟩ | ⟨hu, hstarts⟩
      · -- a loop whose body stands still has no answer
        rw [Taking.loop, hbody] at hloop
        simp at hloop
      · exact .inr ⟨htu.trans hu, hstarts⟩
  | seq left right ihl ihr =>
    obtain ⟨u, hu, ht⟩ := Reading.bind_eq_read h
    have htu := right.leavesEnd_takes _ _ ht
    rcases ihl hp.1 hu (left.leavesEnd_takes _ _ hu) with ⟨rfl, hskips⟩ | ⟨hus, hstarts⟩
    · rcases ihr hp.2 ht htu with ⟨rfl, hskips'⟩ | ⟨hts, hstarts⟩
      · exact .inl ⟨rfl, Bool.and_eq_true_iff.2 ⟨hskips, hskips'⟩⟩
      · exact .inr ⟨hts, .inr ⟨hskips, hstarts⟩⟩
    · exact .inr ⟨htu.trans hus, .inl hstarts⟩
  | choice left right ihl ihr =>
    rcases Reading.orElse_eq_read h with h | h
    · exact (ihl hp.1 h hends).imp (And.imp_right fun hs => Bool.or_eq_true_iff.2 (.inl hs))
        (And.imp_right .inl)
    · exact (ihr hp.2 h hends).imp (And.imp_right fun hs => Bool.or_eq_true_iff.2 (.inr hs))
        (And.imp_right .inr)
  | anyCase | peek | push | ahead | upTo | undoing => exact hp.elim

end Plan

/-! ## Making lists -/

namespace Taking

variable {f f' g g' : Taking}

/-- The functions take the same of ASCII texts. -/
def Agrees (f f' : Taking) : Prop := ∀ s, Text.IsAscii s → f' s = f s

namespace Agrees

theorem refl (f : Taking) : f.Agrees f := fun _ _ => rfl

theorem trans {f'' : Taking} (h : f.Agrees f') (h' : f'.Agrees f'') : f.Agrees f'' :=
  fun s hs => (h' s hs).trans (h s hs)

theorem seq (hf : f.LeavesEnd) (h : f.Agrees f') (h' : g.Agrees g') :
    (Taking.seq f g).Agrees (Taking.seq f' g') := by
  intro s hs
  rw [Taking.seq, Taking.seq, h s hs]
  cases hread : f s with
  | read t => exact h' t (hs.of_suffix (hf _ _ hread))
  | refused => rfl
  | stuck => rfl

theorem choice (h : f.Agrees f') (h' : g.Agrees g') :
    (Taking.choice f g).Agrees (Taking.choice f' g') :=
  fun s hs => congrArg₂ Reading.orElse (h s hs) (h' s hs)

theorem optional (h : f.Agrees f') : (Taking.optional f).Agrees (Taking.optional f') :=
  h.choice (refl _)

theorem loop (hf : f.LeavesEnd) (h : f.Agrees f') (n : Nat) :
    (Taking.loop f n).Agrees (Taking.loop f' n) := by
  induction n with
  | zero => exact refl _
  | succ n ih =>
    intro s hs
    rw [Taking.loop, Taking.loop, h s hs]
    cases hread : f s with
    | read t => simp only [ih t (hs.of_suffix (hf _ _ hread))]
    | refused => rfl
    | stuck => rfl

theorem star (hf : f.LeavesEnd) (h : f.Agrees f') : (Taking.star f).Agrees (Taking.star f') := by
  intro s hs
  rw [Taking.star, Taking.star, h s hs]
  cases hread : f s with
  | read t => exact loop hf h _ t (hs.of_suffix (hf _ _ hread))
  | refused => rfl
  | stuck => rfl

end Agrees

/-- Items that take nothing of ASCII texts can stand on either side of their separators. -/
theorem agrees_list {item separator : Taking} (hsep : separator.LeavesEnd)
    (hitem : ∀ s, Text.IsAscii s → item s = .read s) :
    (seq (star (seq item separator)) item).Agrees (seq item (star (seq separator item))) := by
  have hleft : separator.Agrees (seq item separator) := fun s hs => by rw [seq, hitem s hs]; rfl
  have hright : separator.Agrees (seq separator item) := by
    intro s hs
    rw [seq]
    cases hread : separator s with
    | read t => exact hitem t (hs.of_suffix (hsep _ _ hread))
    | refused => rfl
    | stuck => rfl
  have hstars : (star separator).Agrees (seq (star separator) item) := by
    intro s hs
    rw [seq]
    cases hread : star separator s with
    | read t => exact hitem t (hs.of_suffix (LeavesEnd.star hsep _ _ hread))
    | refused => rfl
    | stuck => rfl
  have hbefore : (seq item (star separator)).Agrees (seq item (star (seq separator item))) := by
    intro s hs
    rw [seq, seq, hitem s hs]
    exact hright.star hsep s hs
  intro s hs
  rw [hbefore s hs, seq, hitem s hs, Reading.bind_read, seq, hleft.star hsep s hs]
  exact (hstars s hs).symm

end Taking

namespace Plan

variable {p q : Plan}

/-- An item that starts with no ASCII character can stand on either side of its separators. -/
theorem agrees_list {item separator : Plan} (hplain : (star (seq item separator)).IsPlain)
    (hsteady : (star (seq item separator)).IsSteady)
    (hstarts : ∀ c : Char, c.toNat < 0x80 → ¬ item.starts c) :
    (seq (star (seq item separator)) item).takes.Agrees
      (seq item (star (seq separator item))).takes := by
  have hanswers := hsteady.1.1.takes_ne_stuck hplain.1
  have hstays {s t : List Char} (hs : Text.IsAscii s) (hread : item.takes s = .read t) :
      t = s ∧ (s ≠ [] → item.skips = true) := by
    cases s with
    | nil => exact ⟨List.suffix_nil.1 (item.leavesEnd_takes _ _ hread), fun h => absurd rfl h⟩
    | cons c s =>
      rcases hplain.1.skips_or_starts hs.head hread with ⟨rfl, hskips⟩ | ⟨-, hc⟩
      · exact ⟨rfl, fun _ => hskips⟩
      · exact absurd hc (hstarts c hs.head)
  by_cases hskips : item.skips = true
  · refine Taking.agrees_list separator.leavesEnd_takes fun s hs => ?_
    cases hread : item.takes s with
    | read t => rw [(hstays hs hread).1]
    | refused => exact absurd hread (hplain.1.takes_ne_refused hskips s)
    | stuck => exact absurd hread (hanswers s)
  · have hrefused {s : List Char} (hs : Text.IsAscii s) (hne : s ≠ []) :
        item.takes s = .refused := by
      cases hread : item.takes s with
      | read t => exact absurd ((hstays hs hread).2 hne) hskips
      | refused => rfl
      | stuck => exact absurd hread (hanswers s)
    intro s hs
    show (item.takes s).bind (Taking.star (Taking.seq separator.takes item.takes)) =
      (Taking.star (Taking.seq item.takes separator.takes) s).bind item.takes
    cases hread : item.takes s with
    | stuck => exact absurd hread (hanswers s)
    | refused => simp [Taking.star, Taking.seq, hread]
    | read t =>
      have hnil : s = [] := by
        by_contra hne
        exact hskips ((hstays hs hread).2 hne)
      obtain rfl := (hstays hs hread).1
      rw [hnil] at hread ⊢
      cases hsep : separator.takes [] with
      | stuck => simp [Taking.star, Taking.seq, hread, hsep]
      | refused => simp [Taking.star, Taking.seq, hread, hsep]
      | read u =>
        rw [List.suffix_nil.1 (separator.leavesEnd_takes _ _ hsep)] at hsep
        simp [Taking.star, Taking.seq, Taking.loop, hread, hsep]

/-- A list is a loop only where it was one. -/
theorem eq_star_of_listed {body : Plan} (h : p.listed = star body) :
    ∃ q, p = star q ∧ q.listed = body := by
  cases p with
  | star q => exact ⟨q, rfl, star.inj h⟩
  | seq left right =>
    rw [listed, list.eq_def] at h
    split at h
    · split at h <;> cases h
    · cases h
  | _ => cases h

theorem skips_listed (p : Plan) : p.listed.skips = p.skips := by
  induction p with
  | seq left right ihl ihr =>
    have hparts : (seq left.listed right.listed).skips = (seq left right).skips :=
      congrArg₂ Bool.and ihl ihr
    rw [listed, list.eq_def, ← hparts]
    split
    · rename_i item separator hleft
      split
      · rename_i hitem
        rw [hleft, hitem]
        simp [skips]
      · rw [hleft]
    · rfl
  | choice left right ihl ihr => exact congrArg₂ Bool.or ihl ihr
  | _ => rfl

/-- Lists start as what they were made of. -/
theorem starts_listed (p : Plan) (c : Char) : p.listed.starts c ↔ p.starts c := by
  induction p with
  | optional body ih => exact ih
  | star body ih => exact ih
  | seq left right ihl ihr =>
    have hparts : (seq left.listed right.listed).starts c ↔ (seq left right).starts c := by
      rw [starts, starts, ihl, ihr, skips_listed]
    rw [listed, list.eq_def, ← hparts]
    split
    · rename_i item separator hleft
      split
      · rename_i hitem
        rw [hleft, ← hitem]
        simp only [starts, skips]
        constructor
        · rintro (h | ⟨hskips, h | ⟨-, h⟩⟩)
          · exact .inl (.inl h)
          · exact .inl (.inr ⟨hskips, h⟩)
          · exact .inr ⟨trivial, h⟩
        · rintro ((h | ⟨hskips, h⟩) | ⟨-, h⟩)
          · exact .inl h
          · exact .inr ⟨hskips, .inl h⟩
          · exact .inl h
      · rw [hleft]
    · rfl
  | choice left right ihl ihr => exact or_congr ihl ihr
  | _ => exact Iff.rfl

/-- **Making lists leaves what a plan takes of ASCII texts**, if no loop could go on with what comes
next. -/
theorem agrees_listed (hp : p.IsPlain) (hs : p.IsSteady) (ha : p.IsApart) :
    p.takes.Agrees p.listed.takes := by
  induction p with
  | optional body ih => exact (ih hp hs ha).optional
  | star body ih => exact (ih hp hs.1 ha).star body.leavesEnd_takes
  | choice left right ihl ihr =>
    exact (ihl hp.1 hs.1 ha.1).choice (ihr hp.2 hs.2 ha.2)
  | seq left right ihl ihr =>
    have hparts : (seq left right).takes.Agrees (seq left.listed right.listed).takes :=
      (ihl hp.1 hs.1 ha.1).seq left.leavesEnd_takes (ihr hp.2 hs.2 ha.2.1)
    refine hparts.trans ?_
    rw [listed, list.eq_def]
    split
    · rename_i item separator hleft
      split
      · rename_i hitem
        obtain ⟨body, rfl, hbody⟩ := eq_star_of_listed hleft
        have hplain := hp.1.listed
        have hsteady := (Keeps.listed _).isSteady hs.1
        rw [hleft] at hplain hsteady ⊢
        rw [← hitem]
        refine agrees_list hplain hsteady fun c hc hstarts => ?_
        -- the loop starts with what the last item starts with
        have hbodyStarts : body.starts c := by
          rw [← starts_listed, hbody]
          exact .inl hstarts
        have hright : right.starts c := by
          rw [← starts_listed, ← hitem]
          exact hstarts
        exact ha.2.2 c hc (.inl hbodyStarts) hright
      · rw [hleft]
        exact .refl _
    · exact .refl _
  | notAhead body =>
    obtain rfl := hp
    exact .refl _
  | text | range | ref | anyCase | peek | push | ahead | upTo | undoing => exact .refl _

end Plan

/-! ## Nesting expressions -/

namespace Expr

variable {e : Expr} {stops? : Expr → Option (List String)}

theorem tracks_seqRight (e r : Expr) :
    (Plan.seq (e.plan stops?) (r.plan stops?)).Tracks ((e.seqRight r).plan stops?) := by
  induction e generalizing r with
  | seq a b iha ihb =>
    exact (Plan.Tracks.seq_assoc _ _ _).trans (((Plan.Tracks.refl _).seq (ihb r)).trans (iha _))
  | _ => exact .refl _

theorem tracks_choiceRight (e r : Expr) :
    (Plan.choice (e.plan stops?) (r.plan stops?)).Tracks ((e.choiceRight r).plan stops?) := by
  induction e generalizing r with
  | choice a b iha ihb =>
    exact (Plan.Tracks.choice_assoc _ _ _).trans
      (((Plan.Tracks.refl _).choice (ihb r)).trans (iha _))
  | _ => exact .refl _

theorem parts_ne_nil (e : Expr) : e.parts ≠ [] := by
  induction e with
  | seq left right ihl ihr => exact List.append_ne_nil_of_left_ne_nil ihl _
  | _ => exact List.cons_ne_nil _ _

/-- A sequence is a row of its parts. -/
theorem tracks_parts (e : Expr) :
    (e.plan stops?).Tracks (Plan.row (e.parts.map (plan stops?))) := by
  have hne (e : Expr) : e.parts.map (plan stops?) ≠ [] :=
    mt List.map_eq_nil_iff.1 (parts_ne_nil e)
  induction e with
  | seq left right ihl ihr =>
    rw [parts, List.map_append]
    exact (ihl.seq ihr).trans (.seq_row (hne left) (hne right))
  | _ => exact .refl _

theorem tracks_flatMap_parts (es : List Expr) :
    (Plan.row (es.map (plan stops?))).Tracks
      (Plan.row ((es.flatMap parts).map (plan stops?))) := by
  induction es with
  | nil => exact .refl _
  | cons e es ih =>
    rw [List.flatMap_cons, List.map_append]
    cases es with
    | nil => simpa [Plan.row] using tracks_parts e
    | cons e' es =>
      refine ((tracks_parts e).seq ih).trans (.seq_row ?_ ?_)
      · exact mt List.map_eq_nil_iff.1 (parts_ne_nil e)
      · rw [List.flatMap_cons]
        exact mt List.map_eq_nil_iff.1 (List.append_ne_nil_of_left_ne_nil (parts_ne_nil e') _)

theorem tracks_foldl_seq (e : Expr) (es : List Expr) :
    (Plan.row ((e :: es).map (plan stops?))).Tracks ((es.foldl seq e).plan stops?) := by
  induction es generalizing e with
  | nil => exact .refl _
  | cons e' es ih =>
    refine .trans ?_ (ih (seq e e'))
    cases es with
    | nil => exact .refl _
    | cons e'' es => exact .seq_assoc_symm _ _ _

/-- **The sequence of several expressions** is a row of their plans. -/
theorem tracks_sequence (es : List Expr) :
    (Plan.row (es.map (plan stops?))).Tracks ((sequence es).plan stops?) := by
  refine (tracks_flatMap_parts es).trans ?_
  rw [sequence]
  split
  · rename_i hparts
    rw [hparts]
    exact .refl _
  · rename_i e es hparts
    rw [hparts]
    exact tracks_foldl_seq e es

variable (hstops : stops? (.ref "ASCII") = none)

include hstops

/-- Nesting to the right is kept track of. -/
theorem IsLexical.tracks_rightNested (h : e.IsLexical) :
    (e.plan stops?).Tracks (e.rightNested.plan stops?) := by
  induction e with
  | text | range | ref => exact .refl _
  | notAhead body =>
    obtain rfl := h
    exact .refl _
  | seq left right ihl ihr =>
    exact ((ihl h.1).seq (ihr h.2)).trans (tracks_seqRight _ _)
  | choice left right ihl ihr =>
    exact ((ihl h.1).choice (ihr h.2)).trans (tracks_choiceRight _ _)
  | repeated body times ih =>
    have hbody : body.IsLexical := h
    rw [Expr.rightNested, hbody.plan_repeated hstops, hbody.rightNested.plan_repeated hstops]
    exact (ih hbody).repeated times
  | anyCase | peek | push | ahead => exact h.elim

/-- What is looked for besides the class of ASCII characters does not matter. -/
theorem IsLexical.plan_eq (h : e.IsLexical) : e.plan stops? = e.plan fun _ => none := by
  induction e with
  | text | range | ref => rfl
  | notAhead body =>
    obtain rfl := h
    rfl
  | seq left right ihl ihr => exact congrArg₂ Plan.seq (ihl h.1) (ihr h.2)
  | choice left right ihl ihr => exact congrArg₂ Plan.choice (ihl h.1) (ihr h.2)
  | repeated body times ih =>
    have hbody : body.IsLexical := h
    rw [hbody.plan_repeated hstops, hbody.plan_repeated rfl, ih hbody]
  | anyCase | peek | push | ahead => exact h.elim

end Expr

/-- **The plan of a token takes what its expression takes of ASCII texts**, if no loop of it could go
on with what comes next. -/
theorem Expr.IsLexical.agrees_routine {rules : List Rule} {r : Rule} (h : r.body.IsLexical)
    (hascii : ∀ n, ruleTexts? rules n "ASCII" = none) (hsteady : r.body.IsSteady)
    (hapart : (r.body.plan fun _ => none).IsApart) :
    (r.body.plan fun _ => none).takes.Agrees (r.routine rules).plan.takes := by
  obtain ⟨p, ⟨htracks, hplain, hsteady⟩, hlast⟩ := Rule.exists_listed
    (P := fun p => (r.body.plan fun _ => none).Tracks p ∧ p.IsPlain ∧ p.IsSteady) hascii
    (fun stops? hstops => ⟨h.plan_eq hstops ▸ h.tracks_rightNested hstops,
      h.rightNested.isPlain_plan hstops,
      isSteady_plan hstops h.rightNested ((isSteady_rightNested _).2 hsteady)⟩)
    (fun p ⟨ht, hp, hs⟩ => ⟨ht.trans (.joined p), hp.joined, (Plan.Keeps.joined p).isSteady hs⟩)
    fun tight n p ⟨ht, hp, hs⟩ => ⟨ht.trans (.factoredTo tight n p), hp.factoredTo tight n,
      (Plan.Keeps.factoredTo tight n p).isSteady hs⟩
  rw [hlast, ← htracks.takes]
  exact Plan.agrees_listed hplain hsteady (htracks.isApart hapart)

end GrammarKit.Peg
