import GrammarKit.Proofs.Peg.Expressions
import GrammarKit.Regex.Lowering

/-!
# Expressions of tokens

A pattern is lowered to an expression that knows no rules but two classes of characters, and that
leaves the stack of remembered texts alone.

* `Expr.IsLexical`: the expressions of tokens.
* **`lowerPattern_isLexical`**: lowering yields nothing else.
* `Expr.IsLexical.readable`: they can be read.
-/

namespace GrammarKit

/-- A computation that ends well does so in both of its steps. -/
theorem bind_ok {ε α β : Type} {x : Except ε α} {f : α → Except ε β} {b : β}
    (h : (x >>= f) = .ok b) : ∃ a, x = .ok a ∧ f a = .ok b := by
  cases x with
  | error e => cases h
  | ok a => exact ⟨a, rfl, h⟩

end GrammarKit

namespace GrammarKit.Peg.Expr

/-- **The expressions of tokens.** -/
def IsLexical : Expr → Prop
  | text _ | range .. => True
  | ref name => name = "ASCII" ∨ name = "ANY"
  | notAhead body => body = ref "ASCII"
  | repeated body _ => body.IsLexical
  | seq left right | choice left right => left.IsLexical ∧ right.IsLexical
  | anyCase _ | peek .. | push _ | ahead _ => False

theorem isRuleName_ascii : IsRuleName "ASCII" :=
  ⟨⟨'A', "SCII".toList, rfl, rfl, by decide⟩, rfl⟩

theorem isRuleName_any : IsRuleName "ANY" := ⟨⟨'A', "NY".toList, rfl, rfl, by decide⟩, rfl⟩

theorem IsLexical.readable {e : Expr} (h : e.IsLexical) : e.Readable := by
  induction e with
  | text | range => exact trivial
  | ref name =>
    rcases h with rfl | rfl
    · exact isRuleName_ascii
    · exact isRuleName_any
  | notAhead body =>
    obtain rfl := h
    exact isRuleName_ascii
  | repeated body times ih => exact ih h
  | seq left right ihl ihr => exact ⟨ihl h.1, ihr h.2⟩
  | choice left right ihl ihr => exact ⟨ihl h.1, ihr h.2⟩
  | anyCase | peek | push | ahead => exact h.elim

section Rows

variable {P : Expr → Prop}

theorem forall_mem_parts (hseq : ∀ l r, P (seq l r) ↔ P l ∧ P r) (e : Expr) :
    (∀ p ∈ e.parts, P p) ↔ P e := by
  induction e with
  | seq left right ihl ihr => rw [parts, List.forall_mem_append, ihl, ihr, hseq]
  | _ => exact List.forall_mem_singleton

theorem forall_mem_branches (hchoice : ∀ l r, P (choice l r) ↔ P l ∧ P r) (e : Expr) :
    (∀ b ∈ e.branches, P b) ↔ P e := by
  induction e with
  | choice left right ihl ihr => rw [branches, List.forall_mem_append, ihl, ihr, hchoice]
  | _ => exact List.forall_mem_singleton

theorem foldl_iff {f : Expr → Expr → Expr} (hf : ∀ l r, P (f l r) ↔ P l ∧ P r) (es : List Expr)
    (e : Expr) : P (es.foldl f e) ↔ ∀ x ∈ e :: es, P x := by
  induction es generalizing e with
  | nil => exact List.forall_mem_singleton.symm
  | cons x es ih =>
    rw [List.foldl_cons, ih, List.forall_mem_cons, hf, List.forall_mem_cons, List.forall_mem_cons,
      and_assoc]

theorem branches_ne_nil (e : Expr) : e.branches ≠ [] := by
  induction e with
  | choice left right ihl ihr => exact List.append_ne_nil_of_left_ne_nil ihl _
  | _ => exact List.cons_ne_nil _ _

theorem forall_mem_flatMap {f : Expr → List Expr} (hf : ∀ e, (∀ p ∈ f e, P p) ↔ P e)
    (es : List Expr) : (∀ p ∈ es.flatMap f, P p) ↔ ∀ e ∈ es, P e := by
  constructor
  · exact fun h e he => (hf e).1 fun p hp => h p (List.mem_flatMap.2 ⟨e, he, hp⟩)
  · intro h p hp
    obtain ⟨e, he, hp⟩ := List.mem_flatMap.1 hp
    exact (hf e).2 (h e he) p hp

/-- What holds of a sequence exactly if it holds of its parts, for several parts at once. -/
theorem sequence_iff (hseq : ∀ l r, P (seq l r) ↔ P l ∧ P r) (hnil : P (text ""))
    (es : List Expr) : P (sequence es) ↔ ∀ e ∈ es, P e := by
  rw [← forall_mem_flatMap (forall_mem_parts hseq), sequence]
  split
  · rename_i hs
    exact iff_of_true hnil (hs ▸ List.forall_mem_nil _)
  · rename_i e es hs
    rw [hs]
    exact foldl_iff hseq es e

/-- What holds of a choice exactly if it holds of its branches, for several branches at once. -/
theorem firstOf_iff (hchoice : ∀ l r, P (choice l r) ↔ P l ∧ P r) {es : List Expr}
    (hnil : es = [] → P (text "")) : P (firstOf es) ↔ ∀ e ∈ es, P e := by
  rw [← forall_mem_flatMap (forall_mem_branches hchoice), firstOf]
  split
  · rename_i hs
    have hes : es = [] := List.eq_nil_iff_forall_not_mem.2 fun e he =>
      branches_ne_nil e (List.flatMap_eq_nil_iff.1 hs e he)
    exact iff_of_true (hnil hes) (hs ▸ List.forall_mem_nil _)
  · rename_i e es hs
    rw [hs]
    exact foldl_iff hchoice es e

/-- What holds of a choice exactly if it holds of its branches holds of the first one and of the
choice between the others. -/
theorem firstOf_cons_iff (hchoice : ∀ l r, P (choice l r) ↔ P l ∧ P r) {e : Expr} {es : List Expr}
    (hne : es ≠ []) : P (firstOf (e :: es)) ↔ P e ∧ P (firstOf es) := by
  rw [firstOf_iff hchoice fun hnil => absurd hnil (List.cons_ne_nil e es),
    firstOf_iff hchoice fun hnil => absurd hnil hne, List.forall_mem_cons]

end Rows

theorem isLexical_sequence {es : List Expr} (h : ∀ e ∈ es, e.IsLexical) :
    (sequence es).IsLexical :=
  (sequence_iff (fun _ _ => Iff.rfl) trivial es).2 h

theorem isLexical_firstOf {es : List Expr} (h : ∀ e ∈ es, e.IsLexical) :
    (firstOf es).IsLexical :=
  (firstOf_iff (fun _ _ => Iff.rfl) fun _ => trivial).2 h

end GrammarKit.Peg.Expr

namespace GrammarKit.Regex

open Peg Expr

theorem asciiPart_isLexical {r : Nat × Nat} {e : Expr} (h : asciiPart r = some e) :
    e.IsLexical := by
  rw [asciiPart] at h
  split at h
  · cases h
  · simp only at h
    split at h <;> cases h <;> exact trivial

theorem lowerClass_isLexical {s : Intervals} {e : Expr} (h : lowerClass s = .ok e) :
    e.IsLexical := by
  have hparts : ∀ p ∈ s.filterMap asciiPart ++
      (if s.any fun r => 0x7F < r.2 then [beyondAscii] else []), p.IsLexical := by
    intro p hp
    rcases List.mem_append.1 hp with hp | hp
    · obtain ⟨r, -, hr⟩ := List.mem_filterMap.1 hp
      exact asciiPart_isLexical hr
    · split at hp
      · obtain rfl := List.mem_singleton.1 hp
        exact ⟨rfl, .inr rfl⟩
      · cases hp
  rw [lowerClass] at h
  split at h
  · cases h
  · cases h
    exact isLexical_firstOf hparts

mutual

theorem lower_isLexical {follow : ByteSet} (r : Regex) {e : Expr} (h : lower follow r = .ok e) :
    e.IsLexical := by
  cases r with
  | empty => cases h; exact trivial
  | literal bytes =>
    rw [lower] at h
    split at h <;> cases h
    exact trivial
  | charClass c => exact lowerClass_isLexical h
  | look a => cases h
  | repetition body least most greedy =>
    rw [lower] at h
    split at h
    · cases h
    · split at h
      · cases h
      · obtain ⟨f, hf, h⟩ := bind_ok h
        cases h
        have hbody : f.IsLexical := lower_isLexical body hf
        exact hbody
  | capture index body => exact lower_isLexical body h
  | concat parts =>
    obtain ⟨es, hes, h⟩ := bind_ok h
    cases h
    exact isLexical_sequence (lowerSeq_isLexical parts hes)
  | alternation branches =>
    obtain ⟨es, hes, h⟩ := bind_ok h
    cases h
    exact isLexical_firstOf (lowerAny_isLexical branches hes)

theorem lowerSeq_isLexical {follow : ByteSet} (rs : List Regex) {es : List Expr}
    (h : lowerSeq follow rs = .ok es) : ∀ e ∈ es, e.IsLexical := by
  cases rs with
  | nil => cases h; exact fun e he => by cases he
  | cons r rs =>
    obtain ⟨e, he, h⟩ := bind_ok h
    obtain ⟨es, hes, h⟩ := bind_ok h
    cases h
    exact List.forall_mem_cons.2 ⟨lower_isLexical r he, lowerSeq_isLexical rs hes⟩

theorem lowerAny_isLexical {follow : ByteSet} (rs : List Regex) {es : List Expr}
    (h : lowerAny follow rs = .ok es) : ∀ e ∈ es, e.IsLexical := by
  cases rs with
  | nil => cases h; exact fun e he => by cases he
  | cons r rs =>
    obtain ⟨e, he, h⟩ := bind_ok h
    obtain ⟨es, hes, h⟩ := bind_ok h
    cases h
    exact List.forall_mem_cons.2 ⟨lower_isLexical r he, lowerAny_isLexical rs hes⟩

end

end GrammarKit.Regex

namespace GrammarKit

/-- **Patterns are lowered to lexical expressions.** -/
theorem lowerPattern_isLexical {pattern : String} {e : Peg.Expr} (h : lowerPattern pattern = .ok e) :
    e.IsLexical := by
  rw [lowerPattern] at h
  split at h
  · cases h
  · rename_i r _
    cases hr : Regex.lower .empty r with
    | error cause => rw [hr] at h; cases h
    | ok f =>
      rw [hr] at h
      cases h
      exact Regex.lower_isLexical r hr

end GrammarKit
