import GrammarKit.Peg.Reader
import GrammarKit.Proofs.Peg.Gaps
import GrammarKit.Text.Position
import Mathlib.Data.List.Forall2

/-!
# What readers find

The failed attempts that a reader remembers have no say in what it reads. So a reader is
described by two statements about a text: it **finds** a value of some kind and leaves a rest, or
it **refuses** the text, whatever was attempted before.

* `Reader.Finds`, `Reader.Refuses`: the two statements.
* `Finds.leads`, `Finds.bind`, `Finds.then_refuses`, `Refuses.bind`: readers one after the other.
* `Finds.orElse`, `Refuses.orElse`: the first of two readers.
* `finds_sign`, `refuses_sign`, `finds_gap`: fixed texts and gaps.
* `finds_many_nil`, `finds_many_cons`: readers as often as they succeed.
* **`finds_many_words`**: words that were written one after the other.
-/

namespace GrammarKit.Peg.Reader

variable {α β : Type}

/-- Whatever was attempted before, the reader finds a value with `P` in `s` and leaves `rest`. -/
def Finds (r : Reader α) (s : List Char) (P : α → Prop) (rest : List Char) : Prop :=
  ∀ a, ∃ b x, r s a = ⟨b, some (x, rest)⟩ ∧ P x

/-- Whatever was attempted before, the reader finds nothing in `s`. -/
def Refuses (r : Reader α) (s : List Char) : Prop := ∀ a, ∃ b, r s a = ⟨b, none⟩

variable {r t : Reader α} {f : α → Reader β} {s s' s'' : List Char} {P : α → Prop} {Q : β → Prop}

theorem Finds.mono {P' : α → Prop} (h : r.Finds s P s') (hP : ∀ x, P x → P' x) :
    r.Finds s P' s' := fun a => by
  obtain ⟨b, x, e, hx⟩ := h a
  exact ⟨b, x, e, hP x hx⟩

/-- What a reader finds in a text, and where, is found once. -/
theorem Finds.unique {P' : α → Prop} (h : r.Finds s P s') (h' : r.Finds s P' s'') :
    s' = s'' ∧ ∃ x, P x ∧ P' x := by
  obtain ⟨b, x, e, hx⟩ := h default
  obtain ⟨b', x', e', hx'⟩ := h' default
  cases e.symm.trans e'
  exact ⟨rfl, x, hx, hx'⟩

/-! ## One after the other -/

theorem finds_pure {x : α} (hx : P x) (s : List Char) : (pure x : Reader α).Finds s P s :=
  fun a => ⟨a, x, rfl, hx⟩

/-- What the second reader does behind the value that is found, both do together. -/
theorem Finds.leads {O : Step β → Prop} (h : r.Finds s P s')
    (hf : ∀ x, P x → ∀ a, O (f x s' a)) (a : Attempts) : O ((r >>= f) s a) := by
  obtain ⟨b, x, e, hx⟩ := h a
  change O (Reader.bind r f s a)
  rw [Reader.bind, e]
  exact hf x hx b

theorem Finds.bind (h : r.Finds s P s') (hf : ∀ x, P x → (f x).Finds s' Q s'') :
    (r >>= f).Finds s Q s'' :=
  h.leads (O := fun step => ∃ b x, step = ⟨b, some (x, s'')⟩ ∧ Q x) hf

theorem Finds.then_refuses (h : r.Finds s P s') (hf : ∀ x, P x → (f x).Refuses s') :
    (r >>= f).Refuses s :=
  h.leads (O := fun step => ∃ b, step = ⟨b, none⟩) hf

theorem Refuses.bind (h : r.Refuses s) : (r >>= f).Refuses s := fun a => by
  obtain ⟨b, e⟩ := h a
  refine ⟨b, ?_⟩
  change Reader.bind r f s a = _
  rw [Reader.bind, e]

/-! ## One or the other -/

theorem Finds.orElse (h : r.Finds s P s') (t : Reader α) : (r.orElse t).Finds s P s' := fun a => by
  obtain ⟨b, x, e, hx⟩ := h a
  exact ⟨b, x, by rw [Reader.orElse, e], hx⟩

theorem Refuses.orElse_finds (h : r.Refuses s) (ht : t.Finds s P s') :
    (r.orElse t).Finds s P s' := fun a => by
  obtain ⟨b, e⟩ := h a
  obtain ⟨c, x, e', hx⟩ := ht b
  exact ⟨c, x, by rw [Reader.orElse, e]; exact e', hx⟩

theorem Refuses.orElse_refuses (h : r.Refuses s) (ht : t.Refuses s) :
    (r.orElse t).Refuses s := fun a => by
  obtain ⟨b, e⟩ := h a
  obtain ⟨c, e'⟩ := ht b
  exact ⟨c, by rw [Reader.orElse, e]; exact e'⟩

theorem refuses_fail (s : List Char) : (fail : Reader α).Refuses s := fun a => ⟨a, rfl⟩

theorem finds_firstOf_head {rs : List (Reader α)} (h : r.Finds s P s') :
    (firstOf (r :: rs)).Finds s P s' := h.orElse _

theorem finds_firstOf_tail {rs : List (Reader α)} (h : r.Refuses s)
    (ht : (firstOf rs).Finds s P s') : (firstOf (r :: rs)).Finds s P s' := h.orElse_finds ht

theorem refuses_firstOf {rs : List (Reader α)} (h : ∀ r ∈ rs, r.Refuses s) :
    (firstOf rs).Refuses s := by
  induction rs with
  | nil => exact refuses_fail s
  | cons r rs ih =>
    exact (h r List.mem_cons_self).orElse_refuses
      (ih fun t ht => h t (List.mem_cons_of_mem _ ht))

theorem Finds.opt (h : r.Finds s P s') : r.opt.Finds s (fun x => ∃ y, x = some y ∧ P y) s' :=
  fun a => by
    obtain ⟨b, x, e, hx⟩ := h a
    exact ⟨b, some x, by rw [Reader.opt, e], x, rfl, hx⟩

theorem Refuses.opt (h : r.Refuses s) : r.opt.Finds s (· = none) s := fun a => by
  obtain ⟨b, e⟩ := h a
  exact ⟨b, none, by rw [Reader.opt, e], rfl⟩

/-! ## Words -/

theorem finds_plain {r : List Char → Option (α × List Char)} {x : α} (h : r s = some (x, s'))
    (hx : P x) : (plain r).Finds s P s' := fun a => ⟨a, x, by rw [plain, h], hx⟩

theorem refuses_plain {r : List Char → Option (α × List Char)} (h : r s = none) :
    (plain r).Refuses s := fun a => ⟨a, by rw [plain, h]⟩

theorem finds_gap (s : List Char) : gap.Finds s (fun _ => True) (dropGap s) :=
  finds_plain rfl trivial

theorem drop?_append (w s : List Char) : drop? w (w ++ s) = some s := by
  induction w with
  | nil => rfl
  | cons c w ih => simp [drop?, ih]

theorem finds_literal (w : String) (s : List Char) :
    (literal w).Finds (w.toList ++ s) (fun _ => True) s :=
  finds_plain (by rw [drop?_append]; rfl) trivial

theorem refuses_literal {w : String} (h : drop? w.toList s = none) : (literal w).Refuses s :=
  refuses_plain (by rw [h]; rfl)

theorem Finds.named (h : r.Finds s P s') (name : String) : (r.named name).Finds s P s' :=
  fun a => by
    obtain ⟨b, x, e, hx⟩ := h a
    exact ⟨b, x, by rw [Reader.named, e], hx⟩

theorem Refuses.named (h : r.Refuses s) (name : String) : (r.named name).Refuses s := fun a => by
  obtain ⟨b, e⟩ := h a
  exact ⟨_, by rw [Reader.named, e]⟩

theorem Finds.located (h : r.Finds s P s') : r.located.Finds s (fun x => P x.1) s' := fun a => by
  obtain ⟨b, x, e, hx⟩ := h a
  exact ⟨b, (x, _), by rw [Reader.located, e], hx⟩

theorem Refuses.located (h : r.Refuses s) : r.located.Refuses s := fun a => by
  obtain ⟨b, e⟩ := h a
  exact ⟨b, by rw [Reader.located, e]⟩

theorem finds_sign (name w : String) (s : List Char) :
    (sign name w).Finds (w.toList ++ s) (fun _ => True) s :=
  Finds.named (fun a => ⟨a, ⟨(w.toList ++ s).length, s.length⟩, by rw [drop?_append], trivial⟩) name

theorem refuses_sign {name w : String} (h : drop? w.toList s = none) :
    (sign name w).Refuses s :=
  Refuses.named (fun a => ⟨a, by rw [h]⟩) name

/-! ## As often as possible -/

theorem manyAfterGap_succ (r : Reader α) (n : Nat) (s : List Char) (a : Attempts) :
    manyAfterGap r (n + 1) s a = match (gap >>= fun _ => r) s a with
      | ⟨a, some (x, rest)⟩ =>
        match manyAfterGap r n rest a with
        | ⟨a, some (xs, rest)⟩ => ⟨a, some (x :: xs, rest)⟩
        | ⟨a, none⟩ => ⟨a, some ([x], rest)⟩
      | ⟨a, none⟩ => ⟨a, some ([], s)⟩ := rfl

theorem finds_manyAfterGap_nil (h : r.Refuses (dropGap s)) (n : Nat) :
    (manyAfterGap r n).Finds s (· = []) s := by
  cases n with
  | zero => exact fun a => ⟨a, [], rfl, rfl⟩
  | succ n =>
    intro a
    obtain ⟨b, e⟩ := (finds_gap s).then_refuses (f := fun _ => r) (fun _ _ => h) a
    exact ⟨b, [], by rw [manyAfterGap_succ, e], rfl⟩

theorem finds_manyAfterGap_cons {n : Nat} {R : List α → Prop} (h : r.Finds (dropGap s) P s')
    (ht : (manyAfterGap r n).Finds s' R s'') :
    (manyAfterGap r (n + 1)).Finds s (fun l => ∃ x xs, l = x :: xs ∧ P x ∧ R xs) s'' := by
  intro a
  obtain ⟨b, x, e, hx⟩ := (finds_gap s).bind (f := fun _ => r) (fun _ _ => h) a
  obtain ⟨c, xs, e', hxs⟩ := ht b
  refine ⟨c, x :: xs, ?_, x, xs, rfl, hx, hxs⟩
  rw [manyAfterGap_succ, e]
  simp only [e']

theorem finds_many_nil (h : r.Refuses s) : r.many.Finds s (· = []) s := by
  intro a
  obtain ⟨b, e⟩ := h a
  exact ⟨b, [], by rw [many, e], rfl⟩

theorem finds_many_cons {R : List α → Prop} (h : r.Finds s P s')
    (ht : (manyAfterGap r s'.length).Finds s' R s'') :
    r.many.Finds s (fun l => ∃ x xs, l = x :: xs ∧ P x ∧ R xs) s'' := by
  intro a
  obtain ⟨b, x, e, hx⟩ := h a
  obtain ⟨c, xs, e', hxs⟩ := ht b
  refine ⟨c, x :: xs, ?_, x, xs, rfl, hx, hxs⟩
  rw [many, e]
  simp only [e']

section Words

variable {γ : Type} {lead write : γ → List Char} {R : α → γ → Prop} {k : List Char}

/-- Words that were written one after the other, each behind a gap, are read again. -/
theorem finds_manyAfterGap_words {ws : List γ}
    (hr : ∀ w ∈ ws, ∀ s, r.Finds (write w ++ s) (R · w) s)
    (hgap : ∀ w ∈ ws, ∀ s, dropGap (lead w ++ (write w ++ s)) = write w ++ s)
    (hk : r.Refuses (dropGap k)) {n : Nat} (hn : ws.length ≤ n) :
    (manyAfterGap r n).Finds (ws.flatMap (fun w => lead w ++ write w) ++ k)
      (List.Forall₂ R · ws) k := by
  induction ws generalizing n with
  | nil =>
    refine (finds_manyAfterGap_nil hk n).mono ?_
    rintro _ rfl
    exact .nil
  | cons w ws ih =>
    obtain ⟨n, rfl⟩ : ∃ n', n = n' + 1 := ⟨n - 1, by rw [List.length_cons] at hn; omega⟩
    have ih := ih (fun v hv => hr v (List.mem_cons_of_mem _ hv))
      (fun v hv => hgap v (List.mem_cons_of_mem _ hv)) (Nat.le_of_succ_le_succ hn)
    rw [List.flatMap_cons, List.append_assoc, List.append_assoc]
    refine (finds_manyAfterGap_cons (P := (R · w)) ?_ ih).mono ?_
    · rw [hgap w List.mem_cons_self]
      exact hr w List.mem_cons_self _
    · rintro _ ⟨x, xs, rfl, hx, hxs⟩
      exact .cons hx hxs

variable (lead write) in
/-- **Words that were written one after the other** are read again, up to a text that the reader
refuses. The gap in front of the first word is passed before. -/
theorem finds_many_words {w : γ} {ws : List γ}
    (hr : ∀ v ∈ w :: ws, ∀ s, r.Finds (write v ++ s) (R · v) s)
    (hgap : ∀ v ∈ ws, ∀ s, dropGap (lead v ++ (write v ++ s)) = write v ++ s)
    (hpos : ∀ v ∈ ws, 0 < (write v).length) (hk : r.Refuses (dropGap k)) :
    r.many.Finds (write w ++ (ws.flatMap (fun v => lead v ++ write v) ++ k))
      (List.Forall₂ R · (w :: ws)) k := by
  have hlen : ws.length ≤ (ws.flatMap (fun v => lead v ++ write v)).length := by
    refine Text.length_le_flatMap fun v hv => ?_
    have := hpos v hv
    rw [List.length_append]
    omega
  refine (finds_many_cons (hr w List.mem_cons_self _) (finds_manyAfterGap_words
    (fun v hv => hr v (List.mem_cons_of_mem _ hv)) hgap hk ?_)).mono ?_
  · rw [List.length_append]
    omega
  · rintro _ ⟨x, xs, rfl, hx, hxs⟩
    exact .cons hx hxs

variable (write) in
/-- Words without gaps between them. -/
theorem finds_many_adjacent (hr : ∀ w s, r.Finds (write w ++ s) (R · w) s)
    (hgap : ∀ w s, dropGap (write w ++ s) = write w ++ s) (hpos : ∀ w, 0 < (write w).length)
    (hk : r.Refuses (dropGap k)) (ws : List γ) (hws : ws = [] → dropGap k = k) :
    r.many.Finds (ws.flatMap write ++ k) (List.Forall₂ R · ws) k := by
  cases ws with
  | nil =>
    rw [hws rfl] at hk
    refine (finds_many_nil hk).mono ?_
    rintro _ rfl
    exact .nil
  | cons w ws =>
    rw [List.flatMap_cons, List.append_assoc]
    exact finds_many_words (fun _ => []) write (fun v _ => hr v) (fun v _ => hgap v)
      (fun v _ => hpos v) hk

end Words

end GrammarKit.Peg.Reader
