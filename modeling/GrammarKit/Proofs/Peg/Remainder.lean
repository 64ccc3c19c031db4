import GrammarKit.Proofs.Peg.Definitions

/-!
# The remainder of a grammar text

Behind its first rule, how a grammar text is read does not depend on the gap at its front, and
comments that document a rule add nothing.

* `ReadsRest`: what becomes of the remainder of a text.
* `ReadsRest.of_gap`, `ReadsRest.of_doc`, `ReadsRest.of_rule`: gaps, comments and rules at its front.
* **`readGrammar_ne_ok`**, **`readGrammar_eq_ok`**: what becomes of the remainder becomes of the
  whole text.
-/

namespace GrammarKit.Peg

open Reader

/-- The rules behind the first one, up to the end of the text. -/
def remainder (depth n : Nat) : Reader (List Definition) := do
  let rules ← manyAfterGap (definition depth) n; gap
  finish
  return rules.filterMap id

/-- **What becomes of the remainder of a text**, whatever was attempted before. -/
def ReadsRest (depth : Nat) (s : List Char) (O : Step (List Definition) → Prop) : Prop :=
  ∀ n, (dropGap s).length ≤ n → ∀ a, O (remainder depth n s a)

/-- Nothing is read. -/
def Step.IsRefused {α : Type} (step : Step α) : Prop := ∃ b, step = ⟨b, none⟩

/-- The rules are read, up to the end of the text. -/
def Step.Holds (rules : List Rule) (step : Step (List Definition)) : Prop :=
  ∃ b ds, step = ⟨b, some (ds, [])⟩ ∧ List.Forall₂ Definition.Writes ds rules

variable {depth : Nat} {s t k : List Char} {O : Step (List Definition) → Prop}

/-- The end of the text, behind rules that have been read. -/
def remainderEnd (rules : List (Option Definition)) : Reader (List Definition) := do
  gap
  finish
  return rules.filterMap id

/-- A reader as often as it succeeds always finds a list. -/
theorem manyAfterGap_finds {α : Type} (r : Reader α) (n : Nat) (s : List Char) (a : Attempts) :
    ∃ b xs rest, manyAfterGap r n s a = ⟨b, some (xs, rest)⟩ := by
  induction n generalizing s a with
  | zero => exact ⟨a, [], s, rfl⟩
  | succ n ih =>
    rw [manyAfterGap_succ]
    split
    · rename_i b x rest _
      obtain ⟨c, xs, rest', e⟩ := ih rest b
      exact ⟨c, x :: xs, rest', by rw [e]⟩
    · exact ⟨_, [], s, rfl⟩

theorem remainder_eq {n : Nat} {a b : Attempts} {xs : List (Option Definition)} {rest : List Char}
    (h : manyAfterGap (definition depth) n s a = ⟨b, some (xs, rest)⟩) :
    remainder depth n s a = remainderEnd xs rest b := by
  show Reader.bind (manyAfterGap (definition depth) n) _ s a = _
  rw [Reader.bind, h]
  rfl

theorem remainderEnd_congr (h : dropGap s = dropGap t) (xs : List (Option Definition))
    (a : Attempts) : remainderEnd xs s a = remainderEnd xs t a := by
  simp only [remainderEnd, Bind.bind, Reader.bind, gap, plain, h]

/-- A rule at the front of the remainder, and what becomes of the text behind it. -/
theorem remainder_succ {n : Nat} {a b : Attempts} {x : Option Definition} {rest : List Char}
    (h : definition depth (dropGap s) a = ⟨b, some (x, rest)⟩) :
    ∃ c xs rest', remainder depth (n + 1) s a = remainderEnd (x :: xs) rest' c ∧
      remainder depth n rest b = remainderEnd xs rest' c := by
  obtain ⟨c, xs, rest', e⟩ := manyAfterGap_finds (definition depth) n rest b
  refine ⟨c, xs, rest', remainder_eq ?_, remainder_eq e⟩
  have hfirst : (gap >>= fun _ => definition depth) s a = ⟨b, some (x, rest)⟩ := h
  rw [manyAfterGap_succ, hfirst]
  simp only [e]

/-- Where no rule stands at the front, the remainder has to be a gap. -/
theorem remainder_end (n : Nat) {a b : Attempts} (h : definition depth (dropGap s) a = ⟨b, none⟩) :
    ∃ c, remainder depth n s a = remainderEnd [] s c := by
  cases n with
  | zero => exact ⟨a, remainder_eq rfl⟩
  | succ n =>
    refine ⟨b, remainder_eq ?_⟩
    have hfirst : (gap >>= fun _ => definition depth) s a = ⟨b, none⟩ := h
    rw [manyAfterGap_succ, hfirst]

namespace ReadsRest

/-- **The gap at the front has no say.** -/
theorem of_gap (h : dropGap s = dropGap t) (ht : ReadsRest depth t O) : ReadsRest depth s O := by
  intro n hn a
  have hgoal : remainder depth n s a = remainder depth n t a := by
    cases n with
    | zero =>
      have hend (u : List Char) : remainder depth 0 u a = remainderEnd [] u a := remainder_eq rfl
      rw [hend, hend]
      exact remainderEnd_congr h [] a
    | succ n =>
      have hfirst : (gap >>= fun _ => definition depth) s a =
          (gap >>= fun _ => definition depth) t a := by
        show Reader.bind gap _ s a = Reader.bind gap _ t a
        simp only [Reader.bind, gap, plain, h]
      cases hstep : (gap >>= fun _ => definition depth) t a with
      | mk b value =>
        cases value with
        | none =>
          have hend (u : List Char) (hu : (gap >>= fun _ => definition depth) u a = ⟨b, none⟩) :
              remainder depth (n + 1) u a = remainderEnd [] u b :=
            remainder_eq (by rw [manyAfterGap_succ, hu])
          rw [hend s (hfirst.trans hstep), hend t hstep]
          exact remainderEnd_congr h [] b
        | some found =>
          obtain ⟨x, rest⟩ := found
          obtain ⟨c, xs, rest', e⟩ := manyAfterGap_finds (definition depth) n rest b
          have hcons (u : List Char)
              (hu : (gap >>= fun _ => definition depth) u a = ⟨b, some (x, rest)⟩) :
              remainder depth (n + 1) u a = remainderEnd (x :: xs) rest' c :=
            remainder_eq (by rw [manyAfterGap_succ, hu]; simp only [e])
          rw [hcons s (hfirst.trans hstep), hcons t hstep]
  rw [hgoal]
  exact ht n (h ▸ hn) a

end ReadsRest

theorem rest_of_finish {s rest : List Char} {a b : Attempts} {x : Unit}
    (h : finish s a = ⟨b, some (x, rest)⟩) : rest = [] := by
  rw [finish, named, plain] at h
  cases s with
  | nil =>
    cases h
    rfl
  | cons c s => cases h

/-- The end of the text is found, or it is not, whatever has been read before. -/
theorem remainderEnd_cases (s : List Char) (a : Attempts) :
    (∃ b, ∀ xs, remainderEnd xs s a = ⟨b, none⟩) ∨
      ∃ b, ∀ xs, remainderEnd xs s a = ⟨b, some (xs.filterMap id, [])⟩ := by
  have hend (xs : List (Option Definition)) : remainderEnd xs s a =
      Reader.bind finish (fun _ => Pure.pure (xs.filterMap id)) (dropGap s) a := rfl
  cases hfinish : finish (dropGap s) a with
  | mk b value =>
    simp only [hend, Reader.bind, hfinish]
    cases value with
    | none => exact .inl ⟨b, fun _ => rfl⟩
    | some found =>
      obtain ⟨_, rest⟩ := found
      obtain rfl : rest = [] := rest_of_finish hfinish
      exact .inr ⟨b, fun _ => rfl⟩

/-- What a list of rules becomes with another rule in front. -/
theorem Step.holds_cons {x : Option Definition} {r : Rule} {rules : List Rule}
    (hx : ∃ d, x = some d ∧ d.Writes r) {xs : List (Option Definition)} {rest : List Char}
    {a : Attempts} (h : (remainderEnd xs rest a).Holds rules) :
    (remainderEnd (x :: xs) rest a).Holds (r :: rules) := by
  obtain ⟨b, ds, hstep, hds⟩ := h
  obtain ⟨d, rfl, hd⟩ := hx
  rcases remainderEnd_cases rest a with ⟨c, hc⟩ | ⟨c, hc⟩
  · rw [hc] at hstep
    cases hstep
  · rw [hc] at hstep
    cases hstep
    exact ⟨b, _, hc _, .cons hd hds⟩

theorem Step.isRefused_cons (x : Option Definition) {xs : List (Option Definition)}
    {rest : List Char} {a : Attempts} (h : (remainderEnd xs rest a).IsRefused) :
    (remainderEnd (x :: xs) rest a).IsRefused := by
  obtain ⟨b, hstep⟩ := h
  rcases remainderEnd_cases rest a with ⟨c, hc⟩ | ⟨c, hc⟩
  · exact ⟨c, hc _⟩
  · rw [hc] at hstep
    cases hstep

theorem finds_ruleDoc {line : List Char} :
    ruleDoc.Finds ('/' :: '/' :: '/' :: line) (fun _ => True) (dropLine line) :=
  ((finds_literal "///" line).bind fun _ _ => finds_plain rfl trivial).named _

namespace ReadsRest

/-- What is found at the front leads on to the text behind it. -/
theorem of_found {O' : Step (List Definition) → Prop} {P : Option Definition → Prop}
    (h : (definition depth).Finds (dropGap s) P k) (hlength : k.length < (dropGap s).length)
    (hO : ∀ x, P x → ∀ xs rest a, O (remainderEnd xs rest a) → O' (remainderEnd (x :: xs) rest a))
    (hk : ReadsRest depth k O) : ReadsRest depth s O' := by
  intro n hn a
  obtain ⟨n, rfl⟩ : ∃ n', n = n' + 1 := ⟨n - 1, by omega⟩
  obtain ⟨b, x, e, hx⟩ := h a
  obtain ⟨c, xs, rest, hstep, hrest⟩ := remainder_succ (n := n) e
  rw [hstep]
  refine hO x hx xs rest c ?_
  rw [← hrest]
  have := length_dropGap k
  exact hk n (by omega) b

/-- **A comment that documents a rule adds nothing.** -/
theorem of_doc {line : List Char} (h : dropGap s = '/' :: '/' :: '/' :: line)
    (hline : ReadsRest depth (dropLine line) O) : ReadsRest depth s O := by
  have hfinds : (definition depth).Finds (dropGap s) (· = none) (dropLine line) := by
    rw [h, definition_eq]
    refine (Refuses.orElse_finds (refuses_identifier rfl).bind ?_).named _
    exact finds_ruleDoc.bind fun _ _ => finds_pure (P := (· = none)) rfl _
  have hlength : (dropLine line).length < (dropGap s).length := by
    have := length_dropLine line
    rw [h]
    simp only [List.length_cons]
    omega
  refine of_found hfinds hlength ?_ hline
  rintro x rfl xs rest a hO
  exact hO

/-- A rule at the front is read. -/
theorem of_rule {r : Rule} {rules : List Rule}
    (h : (definition depth).Finds (dropGap s) (fun x => ∃ d, x = some d ∧ d.Writes r) k)
    (hlength : k.length < (dropGap s).length) (hk : ReadsRest depth k (Step.Holds rules)) :
    ReadsRest depth s (Step.Holds (r :: rules)) :=
  of_found h hlength (fun _ hx _ _ _ => Step.holds_cons hx) hk

theorem refused_of_rule {P : Option Definition → Prop}
    (h : (definition depth).Finds (dropGap s) P k) (hlength : k.length < (dropGap s).length)
    (hk : ReadsRest depth k Step.IsRefused) : ReadsRest depth s Step.IsRefused :=
  of_found h hlength (fun x _ _ _ _ => Step.isRefused_cons x) hk

/-- A text that starts with no rule is refused. -/
theorem refused (h : (definition depth).Refuses (dropGap s)) (hs : dropGap s ≠ []) :
    ReadsRest depth s Step.IsRefused := by
  intro n _ a
  obtain ⟨b, e⟩ := h a
  obtain ⟨c, hc⟩ := remainder_end n e
  rw [hc]
  obtain ⟨d, t, ht⟩ := List.exists_cons_of_ne_nil hs
  exact ⟨_, by simp [remainderEnd, Bind.bind, Reader.bind, gap, plain, ht, finish, named]; rfl⟩

/-- Nothing is left to read at the end of a text. -/
theorem of_end (h : dropGap s = []) : ReadsRest depth s (Step.Holds []) := by
  intro n _ a
  have hrefuses : (definition depth).Refuses (dropGap s) := by
    rw [h, definition_eq]
    exact Refuses.named (Refuses.orElse_refuses (refuses_identifier rfl).bind
      ((refuses_literal (w := "///") rfl).bind.named _).bind) _
  obtain ⟨b, e⟩ := hrefuses a
  obtain ⟨c, hc⟩ := remainder_end n e
  rw [hc]
  refine ⟨c, [], ?_, .nil⟩
  simp [remainderEnd, Bind.bind, Reader.bind, gap, plain, h, finish, named, Pure.pure, Reader.pure]

end ReadsRest

/-! ## Whole texts -/

section Whole

variable {p : Paragraph} (hp : p.IsApart)
  (hreads : p.Reads ((p.lead ++ (p.text ++ s)).length + 1))

include hp hreads

/-- Behind the first rule, a text is read as its remainder. -/
theorem definitions_of_rest {O' : Step (List Definition) → Prop}
    (hs : ReadsRest ((p.lead ++ (p.text ++ s)).length + 1) s O)
    (hO : ∀ x, (∃ d, x = some d ∧ d.Writes p.rule) → ∀ xs rest a, O (remainderEnd xs rest a) →
      O' (remainderEnd (x :: xs) rest a)) (a : Attempts) :
    O' (definitions ((p.lead ++ (p.text ++ s)).length + 1) (p.lead ++ (p.text ++ s)) a) := by
  generalize hdepth : (p.lead ++ (p.text ++ s)).length + 1 = depth at hreads hs
  refine hp.docs_leads (O := O') s (fun a => ?_) a
  obtain ⟨b, x, e, hx⟩ := hreads s a
  obtain ⟨c, xs, rest, hmany⟩ := manyAfterGap_finds (definition depth) s.length s b
  have hstep : (do let rules ← many (definition depth); gap; finish; return rules.filterMap id :
      Reader (List Definition)) (p.text ++ s) a = remainderEnd (x :: xs) rest c := by
    show Reader.bind (many (definition depth)) _ (p.text ++ s) a = _
    have : many (definition depth) (p.text ++ s) a = ⟨c, some (x :: xs, rest)⟩ := by
      rw [many, e]
      simp only [hmany]
    rw [Reader.bind, this]
    rfl
  rw [hstep]
  refine hO x hx xs rest c ?_
  rw [← remainder_eq hmany]
  exact hs _ (length_dropGap s) b

/-- **A text is refused if its remainder is.** -/
theorem readGrammar_ne_ok
    (hs : ReadsRest ((p.lead ++ (p.text ++ s)).length + 1) s Step.IsRefused)
    (ds : List Definition) : readGrammar (p.lead ++ (p.text ++ s)) ≠ .ok ds := by
  obtain ⟨b, e⟩ := definitions_of_rest hp hreads hs
    (fun x _ _ _ _ => Step.isRefused_cons x) (Attempts.none (p.lead ++ (p.text ++ s)).length)
  rw [readGrammar, e]
  exact fun h => by cases h

/-- **A text is read if its remainder is.** -/
theorem readGrammar_eq_ok {rules : List Rule}
    (hs : ReadsRest ((p.lead ++ (p.text ++ s)).length + 1) s (Step.Holds rules)) :
    ∃ ds, readGrammar (p.lead ++ (p.text ++ s)) = .ok ds ∧
      List.Forall₂ Definition.Writes ds (p.rule :: rules) := by
  obtain ⟨b, ds, e, hds⟩ := definitions_of_rest hp hreads hs
    (fun x hx _ _ _ => Step.holds_cons hx) (Attempts.none (p.lead ++ (p.text ++ s)).length)
  exact ⟨ds, by rw [readGrammar, e], hds⟩

end Whole

end GrammarKit.Peg
