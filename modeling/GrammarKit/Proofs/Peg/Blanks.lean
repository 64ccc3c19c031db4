import GrammarKit.Proofs.Peg.Plain
import GrammarKit.Text.Classes

/-!
# Plans that take no blanks

A plan that takes no blanks keeps to the word in front of it: it cannot tell the end of the text
from a blank, and it does not see what stands behind the word.

* `Reading.Alike`: two readings that end alike.
* `Taking.KeepsToWord`: functions that keep to the first word, with a lemma per operator.
* `Plan.avoidsBlanks`: plans that take no blanks.
* **`Plan.keepsToWord_takes`**: they keep to the first word.
-/

namespace GrammarKit.Peg

/-! ## Readings that end alike -/

/-- **Two readings that end alike**: both have read something, or both have not. -/
inductive Reading.Alike {α β : Type} (Q : α → β → Prop) : Reading α → Reading β → Prop
  | read {x : α} {y : β} : Q x y → Alike Q (.read x) (.read y)
  | refused : Alike Q .refused .refused
  | stuck : Alike Q .stuck .stuck

namespace Reading.Alike

variable {α β α' β' : Type} {P : α → β → Prop} {Q : α' → β' → Prop} {r : Reading α}
  {r' : Reading β}

theorem bind {f : α → Reading α'} {g : β → Reading β'} (h : Alike P r r')
    (hf : ∀ x y, P x y → Alike Q (f x) (g y)) : Alike Q (r.bind f) (r'.bind g) := by
  cases h with
  | read hxy => exact hf _ _ hxy
  | refused => exact .refused
  | stuck => exact .stuck

theorem orElse {t : Reading α} {t' : Reading β} (h : Alike P r r') (ht : Alike P t t') :
    Alike P (r.orElse t) (r'.orElse t') := by
  cases h with
  | read hxy => exact .read hxy
  | refused => exact ht
  | stuck => exact .stuck

theorem mono {P' : α → β → Prop} (h : Alike P r r') (hP : ∀ x y, P x y → P' x y) :
    Alike P' r r' := by
  cases h with
  | read hxy => exact .read (hP _ _ hxy)
  | refused => exact .refused
  | stuck => exact .stuck

theorem exists_read {x : α} (h : Alike P (.read x) r') : ∃ y, r' = .read y ∧ P x y := by
  cases h with
  | read hxy => exact ⟨_, rfl, hxy⟩

end Reading.Alike

/-! ## Words -/

/-- A text without blanks. -/
def IsSolid (w : List Char) : Prop := ∀ c ∈ w, Text.isBlank c = false

/-- A text in front of which a word ends: it is empty or starts with a blank. -/
def EndsWord (s : List Char) : Prop := ∀ c ∈ s.head?, Text.isBlank c = true

theorem isSolid_nil : IsSolid [] := List.forall_mem_nil _

theorem endsWord_nil : EndsWord [] := fun _ h => by cases h

theorem IsSolid.suffix {w z : List Char} (h : IsSolid w) (hz : z <:+ w) : IsSolid z :=
  fun c hc => h c (hz.subset hc)

/-- The same end of the word `w` is left in front of two texts. -/
def LeavesAlike (w u u' t t' : List Char) : Prop := ∃ z, z <:+ w ∧ t = z ++ u ∧ t' = z ++ u'

namespace Taking

/-- **What is taken depends on the first word alone**, and is a part of it. -/
def KeepsToWord (f : Taking) : Prop :=
  ∀ w u u', IsSolid w → EndsWord u → EndsWord u' →
    Reading.Alike (LeavesAlike w u u') (f (w ++ u)) (f (w ++ u'))

namespace KeepsToWord

variable {f g : Taking}

theorem char {p : Char → Bool} (hp : ∀ c, Text.isBlank c = true → p c = false) :
    (Taking.char p).KeepsToWord := by
  intro w u u' hw hu hu'
  cases w with
  | cons c w =>
    rw [List.cons_append, List.cons_append, Taking.char, Taking.char]
    split
    · exact .read ⟨w, List.suffix_cons c w, rfl, rfl⟩
    · exact .refused
  | nil =>
    have hend {s : List Char} (hs : EndsWord s) : Taking.char p s = .refused := by
      cases s with
      | nil => rfl
      | cons c s => rw [Taking.char, hp c (hs c rfl), if_neg Bool.false_ne_true]
    rw [List.nil_append, List.nil_append, hend hu, hend hu']
    exact .refused

theorem seq (hf : f.KeepsToWord) (hg : g.KeepsToWord) : (Taking.seq f g).KeepsToWord := by
  intro w u u' hw hu hu'
  refine (hf w u u' hw hu hu').bind ?_
  rintro _ _ ⟨z, hz, rfl, rfl⟩
  refine (hg z u u' (hw.suffix hz) hu hu').mono ?_
  rintro t t' ⟨y, hy, ht, ht'⟩
  exact ⟨y, hy.trans hz, ht, ht'⟩

theorem text {v : List Char} (hv : IsSolid v) : (Taking.text v).KeepsToWord := by
  induction v with
  | nil => exact fun w u u' _ _ _ => .read ⟨w, List.suffix_rfl, rfl, rfl⟩
  | cons c v ih =>
    obtain ⟨hc, hv⟩ := List.forall_mem_cons.1 hv
    have hchar : Taking.text [c] = Taking.char (c == ·) := by
      funext s
      cases s with
      | nil => rfl
      | cons d s => simp [Taking.text, Taking.char, List.isPrefixOf]
    rw [← List.singleton_append, Taking.text_append, hchar]
    refine .seq (.char fun d hd => ?_) (ih hv)
    rw [beq_eq_false_iff_ne]
    rintro rfl
    rw [hc] at hd
    cases hd

theorem choice (hf : f.KeepsToWord) (hg : g.KeepsToWord) : (Taking.choice f g).KeepsToWord :=
  fun w u u' hw hu hu' => (hf w u u' hw hu hu').orElse (hg w u u' hw hu hu')

theorem optional (hf : f.KeepsToWord) : (Taking.optional f).KeepsToWord :=
  fun w u u' hw hu hu' =>
    (hf w u u' hw hu hu').orElse (.read ⟨w, List.suffix_rfl, rfl, rfl⟩)

/-- In a loop, the end of the text may be nearer in one of the texts, as long as it is not reached. -/
theorem loop (hf : f.KeepsToWord) {w u u' : List Char} (hw : IsSolid w) (hu : EndsWord u)
    (hu' : EndsWord u') {n n' : Nat} (hn : (w ++ u).length < n) (hn' : (w ++ u').length < n') :
    Reading.Alike (LeavesAlike w u u') (Taking.loop f n (w ++ u)) (Taking.loop f n' (w ++ u')) := by
  induction n generalizing w n' with
  | zero => exact absurd hn (Nat.not_lt_zero _)
  | succ n ih =>
    obtain ⟨n', rfl⟩ := Nat.exists_eq_succ_of_ne_zero (Nat.ne_zero_of_lt hn')
    rw [Taking.loop, Taking.loop]
    have halike := hf w u u' hw hu hu'
    generalize f (w ++ u) = r, f (w ++ u') = r' at halike
    cases halike with
    | refused => exact .read ⟨w, List.suffix_rfl, rfl, rfl⟩
    | stuck => exact .stuck
    | read hleaves =>
      obtain ⟨z, hz, rfl, rfl⟩ := hleaves
      have hshorter (t : List Char) : (z ++ t).length < (w ++ t).length ↔ z.length < w.length := by
        simp
      simp only [hshorter]
      split
      · rename_i hlt
        have hless := (hshorter u).2 hlt
        have hless' := (hshorter u').2 hlt
        refine (ih (hw.suffix hz) (by omega) (by omega)).mono ?_
        rintro t t' ⟨y, hy, ht, ht'⟩
        exact ⟨y, hy.trans hz, ht, ht'⟩
      · exact .stuck

theorem star (hf : f.KeepsToWord) : (Taking.star f).KeepsToWord := by
  intro w u u' hw hu hu'
  rw [Taking.star, Taking.star]
  have halike := hf w u u' hw hu hu'
  generalize f (w ++ u) = r, f (w ++ u') = r' at halike
  cases halike with
  | refused => exact .read ⟨w, List.suffix_rfl, rfl, rfl⟩
  | stuck => exact .stuck
  | read hleaves =>
    obtain ⟨z, hz, rfl, rfl⟩ := hleaves
    refine (hf.loop (hw.suffix hz) hu hu' (Nat.lt_succ_self _) (Nat.lt_succ_self _)).mono ?_
    rintro t t' ⟨y, hy, ht, ht'⟩
    exact ⟨y, hy.trans hz, ht, ht'⟩

/-- Behind a character that is not ASCII, it does not matter whether `f` could take blanks. -/
theorem behindNotAscii
    (hf : ∀ c w u u', IsSolid (c :: w) → EndsWord u → EndsWord u' →
      Reading.Alike (LeavesAlike (c :: w) u u') (f (c :: w ++ u)) (f (c :: w ++ u')))
    (hend : f [] = .refused) :
    (Taking.seq (Taking.notAhead (Taking.char (·.toNat < 0x80))) f).KeepsToWord := by
  intro w u u' hw hu hu'
  cases w with
  | cons c w =>
    rw [Taking.seq, Taking.seq, Taking.notAhead, Taking.notAhead, List.cons_append,
      List.cons_append, Taking.char, Taking.char]
    by_cases hc : c.toNat < 0x80
    · simp only [hc, decide_true, if_true]
      exact .refused
    · simp only [hc, decide_false, Bool.false_eq_true, if_false]
      exact hf c w u u' hw hu hu'
  | nil =>
    have hrefused {s : List Char} (hs : EndsWord s) :
        Taking.seq (Taking.notAhead (Taking.char (·.toNat < 0x80))) f s = .refused := by
      cases s with
      | nil => exact hend
      | cons c s =>
        have hc : c.toNat < 0x80 := by
          have hblank := hs c rfl
          simp only [Text.isBlank, Bool.or_eq_true, beq_iff_eq] at hblank
          rcases hblank with ((rfl | rfl) | rfl) | rfl <;> decide
        simp [Taking.seq, Taking.notAhead, Taking.char, hc]
    rw [List.nil_append, List.nil_append, hrefused hu, hrefused hu']
    exact .refused

end KeepsToWord

end Taking

/-! ## Plans -/

namespace Plan

mutual

/-- **Plans that take no blanks.** A character that is not ASCII is no blank. -/
def avoidsBlanks : Plan → Bool
  | text s => s.toList.all fun c => !Text.isBlank c
  | range first last => [' ', '\t', '\r', '\n'].all fun c => !(first ≤ c && c ≤ last)
  | optional body | star body => body.avoidsBlanks
  | seq left right =>
    if left = notAhead (ref "ASCII") then right.takesAnyFirst
    else left.avoidsBlanks && right.avoidsBlanks
  | choice left right => left.avoidsBlanks && right.avoidsBlanks
  | _ => false

/-- Plans that take any one character, and no blanks behind it. -/
def takesAnyFirst : Plan → Bool
  | ref name => name == "ANY"
  | seq left right => left.takesAnyFirst && right.avoidsBlanks
  | choice left right => left.takesAnyFirst && right.takesAnyFirst
  | _ => false

end

/-- What is left of a word in front of two texts by a plan that takes any one character first. -/
theorem alike_takes_of_takesAnyFirst {p : Plan} (h : p.takesAnyFirst = true)
    (hbehind : ∀ q : Plan, sizeOf q < sizeOf p → q.avoidsBlanks = true → q.takes.KeepsToWord) :
    (∀ c w u u', IsSolid (c :: w) → EndsWord u → EndsWord u' →
      Reading.Alike (LeavesAlike (c :: w) u u') (p.takes (c :: w ++ u)) (p.takes (c :: w ++ u'))) ∧
    p.takes [] = .refused := by
  induction p with
  | ref name =>
    obtain rfl : name = "ANY" := by simpa [takesAnyFirst] using h
    exact ⟨fun c w u u' _ _ _ => .read ⟨w, List.suffix_cons c w, rfl, rfl⟩, rfl⟩
  | seq left right ihl _ =>
    rw [takesAnyFirst, Bool.and_eq_true] at h
    obtain ⟨hfirst, hend⟩ := ihl h.1 fun q hq => hbehind q (by rw [seq.sizeOf_spec]; omega)
    have hright := hbehind right (by rw [seq.sizeOf_spec]; omega) h.2
    refine ⟨fun c w u u' hw hu hu' => ?_, by rw [takes, Taking.seq, hend]; rfl⟩
    refine (hfirst c w u u' hw hu hu').bind ?_
    rintro _ _ ⟨z, hz, rfl, rfl⟩
    refine (hright z u u' (hw.suffix hz) hu hu').mono ?_
    rintro t t' ⟨y, hy, ht, ht'⟩
    exact ⟨y, hy.trans hz, ht, ht'⟩
  | choice left right ihl ihr =>
    rw [takesAnyFirst, Bool.and_eq_true] at h
    obtain ⟨hl, hlend⟩ := ihl h.1 fun q hq => hbehind q (by rw [choice.sizeOf_spec]; omega)
    obtain ⟨hr, hrend⟩ := ihr h.2 fun q hq => hbehind q (by rw [choice.sizeOf_spec]; omega)
    refine ⟨fun c w u u' hw hu hu' => (hl c w u u' hw hu hu').orElse (hr c w u u' hw hu hu'), ?_⟩
    rw [takes, Taking.choice, hlend, hrend]
    rfl
  | _ => simp [takesAnyFirst] at h

/-- **Plans that take no blanks keep to the first word.** -/
theorem keepsToWord_takes {p : Plan} (h : p.avoidsBlanks = true) : p.takes.KeepsToWord := by
  induction hsize : sizeOf p using Nat.strongRecOn generalizing p with
  | _ size ih =>
    subst hsize
    cases p with
    | text s =>
      refine .text fun c hc => ?_
      rw [avoidsBlanks] at h
      simpa using List.all_eq_true.1 h c hc
    | range first last =>
      refine .char fun c hc => ?_
      rw [avoidsBlanks] at h
      have hmem : c ∈ [' ', '\t', '\r', '\n'] := by
        simpa [Text.isBlank, or_assoc] using hc
      exact (Bool.not_eq_true' _).mp (List.all_eq_true.1 h c hmem)
    | optional body =>
      rw [avoidsBlanks] at h
      exact (ih _ (by simp) h rfl).optional
    | star body =>
      rw [avoidsBlanks] at h
      exact (ih _ (by simp) h rfl).star
    | seq left right =>
      rw [avoidsBlanks] at h
      split at h
      · rename_i hleft
        subst hleft
        obtain ⟨hfirst, hend⟩ := alike_takes_of_takesAnyFirst h fun q hq hblanks =>
          ih _ (by rw [seq.sizeOf_spec]; omega) hblanks rfl
        exact .behindNotAscii hfirst hend
      · rw [Bool.and_eq_true] at h
        exact (ih _ (by rw [seq.sizeOf_spec]; omega) h.1 rfl).seq (ih _ (by rw [seq.sizeOf_spec]; omega) h.2 rfl)
    | choice left right =>
      rw [avoidsBlanks, Bool.and_eq_true] at h
      exact (ih _ (by rw [choice.sizeOf_spec]; omega) h.1 rfl).choice (ih _ (by rw [choice.sizeOf_spec]; omega) h.2 rfl)
    | _ => simp [avoidsBlanks] at h

end Plan

end GrammarKit.Peg
