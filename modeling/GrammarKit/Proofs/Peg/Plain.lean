import GrammarKit.Peg.Machine

/-!
# Plans without rules

A plan that uses no rules but two classes of characters, and that leaves the stack of remembered
texts alone, is a function on texts where no blanks are skipped: it neither shows trees nor
remembers attempts, and what it takes depends on the text in front of it alone.

* `Reading`, `Taking`: how a reading of a text ends, and functions that take the front of a text.
* `Plan.IsPlain`, `Plan.takes`: such plans, and the text that they leave.
* `Run.Lifts`: a run that is such a function, with a lemma per operator.
* **`Plan.run_eq_takes`**, **`Plan.runRule_eq_takes`**: running a plain plan is `Plan.takes`.
-/

namespace GrammarKit.Peg

/-! ## Readings -/

/-- **How a reading of a text ends.** -/
inductive Reading (α : Type) where
  | read (x : α)
  | refused
  /-- No answer: too many nested calls, or a loop without progress. -/
  | stuck
deriving Repr, DecidableEq

namespace Reading

variable {α β : Type}

/-- Goes on with what was read. -/
def bind (r : Reading α) (f : α → Reading β) : Reading β :=
  match r with
  | read x => f x
  | refused => refused
  | stuck => stuck

/-- The reading with `f` applied to its value. -/
def map (f : α → β) (r : Reading α) : Reading β := r.bind fun x => read (f x)

/-- The first reading, or else the second. -/
def orElse (r t : Reading α) : Reading α :=
  match r with
  | refused => t
  | r => r

@[simp] theorem bind_read (x : α) (f : α → Reading β) : (read x).bind f = f x := rfl
@[simp] theorem bind_refused (f : α → Reading β) : (refused : Reading α).bind f = refused := rfl
@[simp] theorem bind_stuck (f : α → Reading β) : (stuck : Reading α).bind f = stuck := rfl
@[simp] theorem orElse_read (x : α) (t : Reading α) : (read x).orElse t = read x := rfl
@[simp] theorem orElse_refused (t : Reading α) : (refused : Reading α).orElse t = t := rfl
@[simp] theorem orElse_stuck (t : Reading α) : (stuck : Reading α).orElse t = stuck := rfl

theorem bind_assoc {γ : Type} (r : Reading α) (f : α → Reading β) (g : β → Reading γ) :
    (r.bind f).bind g = r.bind fun x => (f x).bind g := by
  cases r <;> rfl

theorem bind_eq_read {r : Reading α} {f : α → Reading β} {y : β} (h : r.bind f = .read y) :
    ∃ x, r = .read x ∧ f x = .read y := by
  cases r with
  | read x => exact ⟨x, rfl, h⟩
  | refused => cases h
  | stuck => cases h

theorem orElse_eq_read {r t : Reading α} {x : α} (h : r.orElse t = .read x) :
    r = .read x ∨ t = .read x := by
  cases r with
  | read y => exact .inl h
  | refused => exact .inr h
  | stuck => cases h

theorem orElse_assoc (r t u : Reading α) : (r.orElse t).orElse u = r.orElse (t.orElse u) := by
  cases r <;> rfl

end Reading

/-! ## Functions on texts -/

/-- A function that takes the front of a text and leaves the rest. -/
abbrev Taking := List Char → Reading (List Char)

namespace Taking

/-- Takes the text `w`. -/
def text (w : List Char) : Taking := fun s =>
  if w.isPrefixOf s then .read (s.drop w.length) else .refused

/-- Takes a character of a class. -/
def char (p : Char → Bool) : Taking := fun s =>
  match s with
  | c :: rest => if p c then .read rest else .refused
  | [] => .refused

/-- One after the other. -/
def seq (f g : Taking) : Taking := fun s => (f s).bind g

/-- The first one, or else the second. -/
def choice (f g : Taking) : Taking := fun s => (f s).orElse (g s)

/-- What is taken, if anything. -/
def optional (f : Taking) : Taking := fun s => (f s).orElse (.read s)

/-- Takes nothing, and only where `f` takes nothing. -/
def notAhead (f : Taking) : Taking := fun s =>
  match f s with
  | .read _ => .refused
  | .refused => .read s
  | .stuck => .stuck

/-- `f` as often as it reads, taking fewer than `n` characters; every time has to get on. -/
def loop (f : Taking) : (n : Nat) → Taking
  | 0, _ => .stuck
  | n + 1, s =>
    match f s with
    | .refused => .read s
    | .stuck => .stuck
    | .read t => if t.length < s.length then loop f n t else .stuck

/-- `f` as often as it reads. Only the first time may stand still. -/
def star (f : Taking) : Taking := fun s =>
  match f s with
  | .refused => .read s
  | .stuck => .stuck
  | .read t => loop f (t.length + 1) t

theorem loop_ne_refused (f : Taking) (n : Nat) (s : List Char) : loop f n s ≠ .refused := by
  induction n generalizing s with
  | zero => exact fun h => by cases h
  | succ n ih =>
    rw [loop]
    split
    · exact fun h => by cases h
    · exact fun h => by cases h
    · split
      · exact ih _
      · exact fun h => by cases h

theorem text_eq_read {w s t : List Char} : text w s = .read t ↔ s = w ++ t := by
  rw [text]
  constructor
  · intro h
    split at h
    · rename_i hw
      obtain ⟨u, rfl⟩ := List.isPrefixOf_iff_prefix.1 hw
      cases h
      rw [List.drop_left]
    · cases h
  · rintro rfl
    rw [if_pos (List.isPrefixOf_iff_prefix.2 (List.prefix_append w t)), List.drop_left]

/-- Two texts, one after the other, are one text. -/
theorem text_append (w v : List Char) : text (w ++ v) = seq (text w) (text v) := by
  funext s
  rw [seq, text]
  cases h : text w s with
  | read t =>
    rw [text_eq_read] at h
    subst h
    have hprefix : (w ++ v).isPrefixOf (w ++ t) = v.isPrefixOf t := by
      rw [Bool.eq_iff_iff, List.isPrefixOf_iff_prefix, List.isPrefixOf_iff_prefix,
        List.prefix_append_right_inj]
    rw [Reading.bind_read, text, hprefix, List.length_append, ← List.drop_drop, List.drop_left]
  | refused =>
    refine if_neg fun hwv => ?_
    obtain ⟨t, rfl⟩ := List.isPrefixOf_iff_prefix.1 hwv
    have hread : text w (w ++ v ++ t) = .read (v ++ t) := text_eq_read.2 (List.append_assoc _ _ _)
    rw [h] at hread
    cases hread
  | stuck =>
    rw [text] at h
    split at h <;> cases h

/-- What is left is the end of the text. -/
def LeavesEnd (f : Taking) : Prop := ∀ s t : List Char, f s = .read t → t <:+ s

namespace LeavesEnd

variable {f g : Taking}

theorem text (w : List Char) : (Taking.text w).LeavesEnd := by
  intro s t h
  rw [Taking.text] at h
  split at h
  · cases h
    exact List.drop_suffix _ _
  · cases h

theorem char (p : Char → Bool) : (Taking.char p).LeavesEnd := by
  intro s t h
  cases s with
  | nil => cases h
  | cons c s =>
    rw [Taking.char] at h
    split at h
    · cases h
      exact List.suffix_cons c t
    · cases h

theorem seq (hf : f.LeavesEnd) (hg : g.LeavesEnd) : (Taking.seq f g).LeavesEnd := by
  intro s t h
  obtain ⟨u, hu, h⟩ := Reading.bind_eq_read h
  exact (hg _ _ h).trans (hf _ _ hu)

theorem choice (hf : f.LeavesEnd) (hg : g.LeavesEnd) : (Taking.choice f g).LeavesEnd :=
  fun _ _ h => (Reading.orElse_eq_read h).elim (hf _ _) (hg _ _)

theorem optional (hf : f.LeavesEnd) : (Taking.optional f).LeavesEnd := by
  intro s t h
  rcases Reading.orElse_eq_read h with h | h
  · exact hf _ _ h
  · cases h
    exact List.suffix_rfl

theorem notAhead (f : Taking) : (Taking.notAhead f).LeavesEnd := by
  intro s t h
  rw [Taking.notAhead] at h
  split at h <;> cases h
  exact List.suffix_rfl

theorem loop (hf : f.LeavesEnd) (n : Nat) : (Taking.loop f n).LeavesEnd := by
  intro s t h
  induction n generalizing s with
  | zero => cases h
  | succ n ih =>
    rw [Taking.loop] at h
    split at h
    · cases h
      exact List.suffix_rfl
    · cases h
    · rename_i u hu
      split at h
      · exact (ih _ h).trans (hf _ _ hu)
      · cases h

theorem star (hf : f.LeavesEnd) : (Taking.star f).LeavesEnd := by
  intro s t h
  rw [Taking.star] at h
  split at h
  · cases h
    exact List.suffix_rfl
  · cases h
  · rename_i u hu
    exact (loop hf _ _ _ h).trans (hf _ _ hu)

end LeavesEnd

end Taking

/-! ## Runs that are functions on texts -/

/-- The end of a step that found `st` and took the text up to what was read. -/
def Reading.outcome (r : Reading (List Char)) (st : State) : Outcome :=
  match r with
  | read rest => .matched [] { st with rest }
  | refused => .failed st.stack st.attempts
  | stuck => .stuck

/-- The run is the function `f` on texts. -/
def Run.Lifts (r : Run) (f : Taking) : Prop := ∀ st, r st = (f st.rest).outcome st

namespace Run.Lifts

variable {r t gap : Run} {f g : Taking}

theorem text (w : List Char) : (Run.text w).Lifts (Taking.text w) := by
  intro st
  rw [Run.text, Taking.text]
  split
  · rfl
  · rfl

theorem char (p : Char → Bool) : (Run.char p).Lifts (Taking.char p) := by
  rintro ⟨rest, stack, attempts⟩
  cases rest with
  | nil => rfl
  | cons c rest =>
    rw [Run.char, Taking.char]
    simp only
    split
    · rfl
    · rfl

theorem andThen (hr : r.Lifts f) (ht : t.Lifts g) (st : State) :
    (r st).andThen t = ((f st.rest).bind g).outcome st := by
  rw [hr st]
  cases f st.rest with
  | read rest =>
    rw [Reading.bind_read, Reading.outcome, Outcome.andThen, ht { st with rest }]
    cases g rest <;> rfl
  | refused => rfl
  | stuck => rfl

theorem undoing (hr : r.Lifts f) : (Run.undoing r).Lifts f := by
  intro st
  rw [Run.undoing, hr st]
  cases f st.rest <;> rfl

theorem seq (hr : r.Lifts f) (ht : t.Lifts g) : (r.seq t).Lifts (Taking.seq f g) :=
  undoing fun st => andThen hr ht st

theorem choice (hr : r.Lifts f) (ht : t.Lifts g) : (r.choice t).Lifts (Taking.choice f g) := by
  intro st
  rw [Run.choice, hr st, Taking.choice]
  cases f st.rest with
  | read rest => rfl
  | refused => exact ht _
  | stuck => rfl

theorem optional (hr : r.Lifts f) : (Run.optional r).Lifts (Taking.optional f) := by
  intro st
  rw [Run.optional, hr st, Taking.optional]
  cases f st.rest <;> rfl

theorem notAhead (hr : r.Lifts f) : (Run.notAhead r).Lifts (Taking.notAhead f) := by
  intro st
  rw [Run.notAhead, hr st, Taking.notAhead]
  cases f st.rest <;> rfl

/-- A run that leaves the stack alone has to take a character each time. -/
theorem loop (hr : r.Lifts f) (n : Nat) : (Run.loop r n).Lifts (Taking.loop f n) := by
  induction n with
  | zero => exact fun st => rfl
  | succ n ih =>
    intro st
    rw [Run.loop, Run.loopFrom, hr st, Taking.loop]
    cases f st.rest with
    | refused => rfl
    | stuck => rfl
    | read rest =>
      simp only [Reading.outcome]
      split
      · rw [Outcome.andThen, ih { st with rest }]
        cases Taking.loop f n rest <;> rfl
      · rw [if_neg (Nat.lt_irrefl _)]

/-- Nothing is skipped where no blanks are. -/
theorem nothing_seq (hgap : ∀ st, gap st = .matched [] st) (hr : r.Lifts f) :
    (gap.seq r).Lifts f := by
  refine undoing fun st => ?_
  rw [hgap st, Outcome.andThen, hr st]
  cases f st.rest <;> rfl

theorem starWith (hgap : ∀ st, gap st = .matched [] st) (hr : r.Lifts f) :
    (Run.starWith gap r).Lifts (Taking.star f) := by
  intro st
  have hstar : (Run.star (gap.seq r)).Lifts fun s => Taking.loop f (s.length + 1) s :=
    fun st => (nothing_seq hgap hr).loop _ st
  rw [Run.starWith, Run.optional, andThen hr hstar st, Taking.star]
  cases f st.rest with
  | refused => rfl
  | stuck => rfl
  | read rest =>
    rw [Reading.bind_read]
    show _ = (Taking.loop f (rest.length + 1) rest).outcome st
    cases hl : Taking.loop f (rest.length + 1) rest with
    | read rest => rfl
    | stuck => rfl
    | refused => exact absurd hl (Taking.loop_ne_refused f _ rest)

end Run.Lifts

/-! ## Plain plans -/

namespace Plan

/-- **Plans without rules**, but for two classes of characters. -/
def IsPlain : Plan → Prop
  | text _ | range .. => True
  | ref name => name = "ASCII" ∨ name = "ANY"
  | notAhead body => body = ref "ASCII"
  | optional body | star body => body.IsPlain
  | seq left right | choice left right => left.IsPlain ∧ right.IsPlain
  | anyCase _ | peek .. | push _ | ahead _ | upTo _ | undoing _ => False

/-- **What a plain plan leaves of a text.** -/
def takes : Plan → Taking
  | text s => Taking.text s.toList
  | range first last => Taking.char fun c => first ≤ c && c ≤ last
  | ref name => if name = "ASCII" then Taking.char (·.toNat < 0x80) else Taking.char fun _ => true
  | notAhead body => Taking.notAhead body.takes
  | optional body => Taking.optional body.takes
  | star body => Taking.star body.takes
  | seq left right => Taking.seq left.takes right.takes
  | choice left right => Taking.choice left.takes right.takes
  | anyCase _ | peek .. | push _ | ahead _ | upTo _ | undoing _ => fun _ => .stuck

/-- A plain plan takes the front of a text. -/
theorem leavesEnd_takes (p : Plan) : p.takes.LeavesEnd := by
  induction p with
  | text s => exact .text s.toList
  | range first last => exact .char _
  | ref name =>
    rw [takes]
    split
    · exact .char _
    · exact .char _
  | notAhead body => exact .notAhead _
  | optional body ih => exact .optional ih
  | star body ih => exact .star ih
  | seq left right ihl ihr => exact .seq ihl ihr
  | choice left right ihl ihr => exact .choice ihl ihr
  | anyCase | peek | push | ahead | upTo | undoing => exact fun _ _ h => by cases h

variable {gap : Context → Run} {call : Context → String → Run}

/-- **Running a plain plan is `Plan.takes`**, where no blanks are skipped. -/
theorem run_eq_takes {p : Plan} (hp : p.IsPlain)
    (hgap : ∀ ctx, ctx.atomicity ≠ .loose → ∀ st, gap ctx st = .matched [] st)
    (hascii : ∀ ctx, (call ctx "ASCII").Lifts (Taking.char (·.toNat < 0x80)))
    (hany : ∀ ctx, (call ctx "ANY").Lifts (Taking.char fun _ => true)) {ctx : Context}
    (hctx : ctx.atomicity ≠ .loose) : (p.run gap call ctx).Lifts p.takes := by
  induction p generalizing ctx with
  | text s => exact .text s.toList
  | range first last => exact .char _
  | ref name =>
    rcases hp with rfl | rfl
    · exact hascii ctx
    · exact hany ctx
  | notAhead body =>
    obtain rfl := hp
    have hbody := hascii { ctx with look := ctx.look.inside true }
    exact hbody.notAhead
  | optional body ih => exact (ih hp hctx).optional
  | star body ih => exact (ih hp hctx).starWith (hgap ctx hctx)
  | seq left right ihl ihr =>
    exact (ihl hp.1 hctx).seq ((ihr hp.2 hctx).nothing_seq (hgap ctx hctx))
  | choice left right ihl ihr => exact (ihl hp.1 hctx).choice (ihr hp.2 hctx)
  | anyCase | peek | push | ahead | upTo | undoing => exact hp.elim

/-- **Running a plain plan in a grammar is `Plan.takes`**, in the body of a rule without blanks. -/
theorem runRule_eq_takes {p : Plan} (hp : p.IsPlain) (routines : List Routine) (length depth : Nat)
    (ctx : Context) (hctx : ctx.atomicity ≠ .loose) :
    (p.run (gapRun routines (runRule routines length (depth + 1)))
      (runRule routines length (depth + 1)) ctx).Lifts p.takes :=
  run_eq_takes hp (fun _ hctx _ => if_pos hctx) (fun _ => .char _) (fun _ => .char _) hctx

end Plan

end GrammarKit.Peg
