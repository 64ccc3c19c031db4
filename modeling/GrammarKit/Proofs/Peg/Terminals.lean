import GrammarKit.Proofs.Peg.Places
import GrammarKit.Proofs.Peg.Words

/-!
# Terminals and signs of grammar texts, written and read

* `finds_terminal_text`, `finds_terminal_range`, `finds_terminal_ref`: what stands for itself.
* `refuses_terminal_push`: a name that starts with `PUSH` is no terminal.
* **`finds_postfixSign`**: the signs behind repeated expressions.
* `Follows`: what can stand behind a part of an operand.
* `Times.isSound`, `Expr.isSound`: counts that can be read without a fault.
* `Term.Writes`: what a term that was read has to do with the expression that was written.
-/

namespace GrammarKit.Peg

open Reader

/-! ## What stands behind an operand -/

/-- The signs behind an operand: those between operands, and closing brackets. -/
def operandEnds : List Char := ['~', '|', '\x7d', ')']

/-- The signs behind a part of an operand: also those of repetitions. -/
def partEnds : List Char := ['~', '|', '\x7d', ')', '?', '*', '+', '\x7b']

/-- What follows a part of an operand: perhaps a gap, then one of the signs. -/
structure Follows (k : List Char) (c : Char) (k' : List Char) : Prop where
  drop : dropGap k = c :: k'
  sign : c ∈ partEnds
  ends : EndsName k

theorem solid_of_mem_partEnds : ∀ c ∈ partEnds, startsGap c = false := by decide

theorem mem_partEnds_of_mem_operandEnds : ∀ c ∈ operandEnds, c ∈ partEnds := by decide

theorem Follows.solid {k k' : List Char} {c : Char} (h : Follows k c k') : startsGap c = false :=
  solid_of_mem_partEnds c h.sign

theorem Follows.ne {k k' : List Char} {c d : Char} (h : Follows k c k') (hd : d ∉ partEnds) :
    d ≠ c := fun e => hd (e ▸ h.sign)

/-- A sign that follows at once. -/
theorem Follows.of_cons {c : Char} (h : c ∈ partEnds) (k : List Char) : Follows (c :: k) c k where
  drop := dropGap_solid (solid_of_mem_partEnds c h) k
  sign := h
  ends := endsName_cons ((by decide : ∀ c ∈ partEnds, continuesName c = false) c h)

/-- A sign that follows behind a space. -/
theorem Follows.of_space {c : Char} (h : c ∈ partEnds) (k : List Char) :
    Follows (' ' :: c :: k) c k where
  drop := by rw [dropGap_space]; exact (Follows.of_cons h k).drop
  sign := h
  ends := endsName_cons (by decide)

/-! ## Fixed texts that do not match -/

theorem drop?_head_ne {c d : Char} (h : c ≠ d) (w s : List Char) :
    drop? (c :: w) (d :: s) = none := by
  rw [drop?, if_neg h]

theorem drop?_append_word {w s : List Char} (h : drop? w s = none) (v : List Char) :
    drop? (w ++ v) s = none := by
  induction w generalizing s with
  | nil => cases h
  | cons c w ih =>
    cases s with
    | nil => rfl
    | cons d s =>
      rw [List.cons_append, drop?]
      rw [drop?] at h
      split
      · rename_i hcd
        rw [if_pos hcd] at h
        exact ih h
      · rfl

theorem refuses_sign_of_ne {name w : String} {c d : Char} {v k : List Char}
    (hw : w.toList = c :: v) (h : c ≠ d) : (sign name w).Refuses (d :: k) :=
  refuses_sign (by rw [hw]; exact drop?_head_ne h v k)

/-- A word that has been passed inside a name ends inside or at the end of that name. -/
theorem drop?_append_inv {w n k rest : List Char} (hw : ∀ c ∈ w, continuesName c = true)
    (hn : ∀ c ∈ n, continuesName c = true) (hk : EndsName k)
    (h : drop? w (n ++ k) = some rest) :
    ∃ x, rest = x ++ k ∧ ∀ c ∈ x, continuesName c = true := by
  induction w generalizing n with
  | nil => exact ⟨n, by cases h; rfl, hn⟩
  | cons c w ih =>
    cases n with
    | nil =>
      cases k with
      | nil => cases h
      | cons d k =>
        rw [List.nil_append, drop?] at h
        split at h
        · rename_i hcd
          have := hk d rfl
          rw [← hcd, hw c List.mem_cons_self] at this
          cases this
        · cases h
    | cons d n =>
      rw [List.cons_append, drop?] at h
      split at h
      · exact ih (fun x hx => hw x (List.mem_cons_of_mem _ hx))
          (fun x hx => hn x (List.mem_cons_of_mem _ hx)) h
      · cases h

/-- A name is not read as a keyword with a bracket behind it. -/
theorem refuses_keyword {β : Type} {w n k k' : List Char} {c d : Char} {name keyword bracket : String}
    {f : Span → Reader β} (hkw : keyword.toList = w) (hw : ∀ c ∈ w, continuesName c = true)
    (hn : ∀ c ∈ n, continuesName c = true) (hk : Follows k c k') (hb : bracket.toList = [d])
    (hd : d ∉ partEnds) (hd' : continuesName d = false) :
    (do literal keyword; gap; let x ← sign name bracket; f x).Refuses (n ++ k) := by
  cases hrest : drop? w (n ++ k) with
  | none => exact (refuses_literal (by rw [hkw, hrest])).bind
  | some rest =>
    obtain ⟨x, rfl, hx⟩ := drop?_append_inv hw hn hk.ends hrest
    refine (finds_plain (P := fun _ => True) (by rw [hkw, hrest]; rfl) trivial).then_refuses
      fun _ _ => (finds_gap _).then_refuses fun _ _ => Refuses.bind ?_
    -- behind the keyword, the name goes on or ends
    cases x with
    | nil =>
      rw [List.nil_append, hk.drop]
      exact refuses_sign_of_ne hb (hk.ne hd)
    | cons e x =>
      have he := hx e List.mem_cons_self
      rw [List.cons_append, dropGap_solid (startsGap_of_continuesName he)]
      refine refuses_sign_of_ne hb ?_
      rintro rfl
      rw [hd'] at he
      cases he

/-! ## Terminals that do not match -/

section Refusals

variable {inner : Reader Opened} {s : List Char}

theorem refuses_pushedText (h : drop? "PUSH".toList s = none) : pushedText.Refuses s := by
  have hw : drop? "PUSH_LITERAL".toList s = none := drop?_append_word h "_LITERAL".toList
  exact (refuses_literal hw).bind.located.bind.named _

theorem refuses_pushed (h : drop? "PUSH".toList s = none) : (pushed inner).Refuses s :=
  ((refuses_literal h).bind.located).bind.named _

theorem refuses_peekSlice (h : drop? "PEEK".toList s = none) : peekSlice.Refuses s :=
  ((refuses_literal h).bind.located).bind.named _

theorem refuses_quoted (h : drop? "\"".toList s = none) : quoted.Refuses s :=
  ((refuses_sign h).bind.located).named _

theorem refuses_character (h : drop? "'".toList s = none) : character.Refuses s :=
  ((refuses_sign h).bind.located).named _

theorem refuses_anyCase (h : drop? "^".toList s = none) : anyCase.Refuses s := by
  refine Refuses.named (fun a => ?_) _
  obtain ⟨b, e⟩ := (refuses_literal (w := "^") h).bind (f := fun _ => do gap; quoted) |>.located a
  exact ⟨b, by simp only [e]⟩

theorem refuses_charRange (h : drop? "'".toList s = none) : charRange.Refuses s :=
  (refuses_character h).bind.named _

theorem refuses_tag {c : Char} (h : c ≠ '#') (k : List Char) : tag.Refuses (c :: k) := by
  refine ((refuses_plain ?_).named _).bind
  split
  · rename_i heq
    cases heq
    exact absurd rfl h
  · rfl

theorem refuses_lookaheadSign {c : Char} (h : c ≠ '&') (h' : c ≠ '!') (k : List Char) :
    lookaheadSign.Refuses (c :: k) :=
  ((refuses_sign_of_ne rfl h.symm).bind).orElse_refuses ((refuses_sign_of_ne rfl h'.symm).bind)

theorem refuses_pushedText_name {n k k' : List Char} {c : Char}
    (hn : ∀ c ∈ n, continuesName c = true) (hk : Follows k c k') : pushedText.Refuses (n ++ k) :=
  (refuses_keyword rfl (by decide) hn hk rfl (by decide) (by decide)).located.bind.named _

theorem refuses_pushed_name {n k k' : List Char} {c : Char}
    (hn : ∀ c ∈ n, continuesName c = true) (hk : Follows k c k') :
    (pushed inner).Refuses (n ++ k) :=
  (refuses_keyword rfl (by decide) hn hk rfl (by decide) (by decide)).located.bind.named _

theorem refuses_peekSlice_name {n k k' : List Char} {c : Char}
    (hn : ∀ c ∈ n, continuesName c = true) (hk : Follows k c k') : peekSlice.Refuses (n ++ k) :=
  (refuses_keyword rfl (by decide) hn hk rfl (by decide) (by decide)).located.bind.named _

/-- A name that starts with `PUSH` is no terminal. -/
theorem refuses_terminal_push {name : String} (hn : IsPlainName name)
    (hp : startsWithPush name.toList = true) {k k' : List Char} {c : Char} (hk : Follows k c k') :
    (terminal inner).Refuses (name.toList ++ k) := by
  have hpush : startsWithPush (name.toList ++ k) = true := by
    rw [startsWithPush_append hk.ends, hp]
  have hall := hn.continues
  refine refuses_firstOf fun r hr => ?_
  simp only [List.mem_cons, List.not_mem_nil, or_false] at hr
  rcases hr with rfl | rfl | rfl | rfl | rfl | rfl | rfl
  · exact refuses_pushedText_name hall hk
  · exact refuses_pushed_name hall hk
  · exact refuses_peekSlice_name hall hk
  · exact (refuses_identifier (name?_push hpush)).bind
  all_goals obtain ⟨d, s, hs, hd, -⟩ := hn; rw [hs, List.cons_append]
  · exact (refuses_quoted (drop?_head_ne (by rintro rfl; cases hd) _ _)).bind
  · exact refuses_anyCase (drop?_head_ne (by rintro rfl; cases hd) _ _)
  · exact refuses_charRange (drop?_head_ne (by rintro rfl; cases hd) _ _)

end Refusals

/-! ## Terms and expressions -/

/-- Whether a count can be read without a fault. -/
def Times.isSound : Times → Bool
  | optional | star | plus => true
  | exactly n | atMost n => 0 < n && n ≤ 0xFFFFFFFF
  | atLeast n => n ≤ 0xFFFFFFFF
  | between n m => n ≤ 0xFFFFFFFF && 0 < m && m ≤ 0xFFFFFFFF

/-- Whether all counts of an expression can be read without a fault. -/
def Expr.isSound : Expr → Bool
  | text _ | anyCase _ | range .. | ref _ | peek .. => true
  | push body | ahead body | notAhead body => body.isSound
  | repeated body times => body.isSound && times.isSound
  | seq left right | choice left right => left.isSound && right.isSound

/-- **The term stands for the expression**, and is without a fault if all counts are sound. -/
structure Term.Writes (t : Term) (e : Expr) : Prop where
  expr : t.expr = e
  bare : e.isSound = true → t.bare = .ofExpr e

theorem Term.expr_withSpan (t : Term) (span : Span) : (t.withSpan span).expr = t.expr := by
  induction t with
  | flawed _ _ ih => exact ih
  | _ => rfl

namespace Term.Writes

variable {t u : Term} {e f : Expr}

theorem leaf (span : Span) {e : Expr} (he : Term.ofExpr e = .leaf default e none) :
    (Term.leaf span e none).Writes e := ⟨rfl, fun _ => he.symm⟩

theorem notAhead (h : t.Writes e) (span : Span) : (Term.notAhead span t).Writes (.notAhead e) :=
  ⟨congrArg Expr.notAhead h.expr, fun hs => congrArg (Term.notAhead default) (h.bare hs)⟩

theorem repeated (h : t.Writes e) (span : Span) {times : Times}
    {fault : Option (ValueFault × Span)} (hf : times.isSound = true → fault = none) :
    (Term.repeated span t times fault).Writes (.repeated e times) := by
  refine ⟨congrArg (Expr.repeated · times) h.expr, fun hs => ?_⟩
  rw [Expr.isSound, Bool.and_eq_true] at hs
  rw [Term.bare, h.bare hs.1, hf hs.2]
  rfl

theorem seq (h : t.Writes e) (h' : u.Writes f) (span : Span) :
    (Term.seq span t u).Writes (.seq e f) := by
  refine ⟨by rw [Term.expr, h.expr, h'.expr], fun hs => ?_⟩
  rw [Expr.isSound, Bool.and_eq_true] at hs
  rw [Term.bare, h.bare hs.1, h'.bare hs.2]
  rfl

theorem choice (h : t.Writes e) (h' : u.Writes f) (span : Span) :
    (Term.choice span t u).Writes (.choice e f) := by
  refine ⟨by rw [Term.expr, h.expr, h'.expr], fun hs => ?_⟩
  rw [Expr.isSound, Bool.and_eq_true] at hs
  rw [Term.bare, h.bare hs.1, h'.bare hs.2]
  rfl

theorem withSpan (h : t.Writes e) (span : Span) : (t.withSpan span).Writes e := by
  refine ⟨by rw [Term.expr_withSpan, h.expr], fun hs => ?_⟩
  have := h.bare hs
  cases t with
  | flawed fault body => cases e <;> cases this
  | _ => exact this

end Term.Writes

/-! ## Terminals -/

section Terminals

variable {inner : Reader Opened}

theorem finds_terminal_ref {name : String} (h : IsRuleName name) {k k' : List Char} {c : Char}
    (hk : Follows k c k') :
    (terminal inner).Finds (name.toList ++ k) (·.Writes (.ref name)) k := by
  have hall := h.1.continues
  refine finds_firstOf_tail (refuses_pushedText_name hall hk) ?_
  refine finds_firstOf_tail (refuses_pushed_name hall hk) ?_
  refine finds_firstOf_tail (refuses_peekSlice_name hall hk) ?_
  refine finds_firstOf_head ((finds_identifier h hk.ends).bind ?_)
  rintro ⟨_, span⟩ rfl
  exact finds_pure (P := fun t : Term => t.Writes (.ref _)) (Term.Writes.leaf span rfl) k

/-- A text between quotes, however it is written. -/
theorem finds_terminal_quoted {s : String} {p k : List Char}
    (h : quoted.Finds ('"' :: p) (fun x => x.1 = some s) k) :
    (terminal inner).Finds ('"' :: p) (·.Writes (.text s)) k := by
  refine finds_firstOf_tail (refuses_pushedText rfl) ?_
  refine finds_firstOf_tail (refuses_pushed rfl) ?_
  refine finds_firstOf_tail (refuses_peekSlice rfl) ?_
  refine finds_firstOf_tail (refuses_identifier (name?_of_not_starts rfl p)).bind ?_
  refine finds_firstOf_head (h.bind ?_)
  rintro ⟨_, span⟩ rfl
  exact finds_pure (P := fun t : Term => t.Writes (.text s)) (Term.Writes.leaf span rfl) k

theorem finds_terminal_text (s : String) (k : List Char) :
    (terminal inner).Finds ((quoteText s).toList ++ k) (·.Writes (.text s)) k := by
  have h := finds_quoted s k
  rw [quoteText_toList] at h ⊢
  exact finds_terminal_quoted h

theorem finds_terminal_range (first last : Char) (k : List Char) :
    (terminal inner).Finds ((Expr.range first last).render.toList ++ k)
      (·.Writes (.range first last)) k := by
  have htext : (Expr.range first last).render.toList ++ k =
      (quoteChar first).toList ++ ("..".toList ++ ((quoteChar last).toList ++ k)) := by
    simp only [Expr.render, String.toList_append, List.append_assoc]
  have hhead : ∃ rest, (Expr.range first last).render.toList ++ k = '\'' :: rest := by
    rw [htext, quoteChar_toList]
    exact ⟨_, rfl⟩
  obtain ⟨rest, hrest⟩ := hhead
  have hname : name? ((Expr.range first last).render.toList ++ k) = none := by
    rw [hrest]
    exact name?_of_not_starts (by decide) rest
  refine finds_firstOf_tail (refuses_pushedText (by rw [hrest]; rfl)) ?_
  refine finds_firstOf_tail (refuses_pushed (by rw [hrest]; rfl)) ?_
  refine finds_firstOf_tail (refuses_peekSlice (by rw [hrest]; rfl)) ?_
  refine finds_firstOf_tail (refuses_identifier hname).bind ?_
  refine finds_firstOf_tail (refuses_quoted (by rw [hrest]; rfl)).bind ?_
  refine finds_firstOf_tail (refuses_anyCase (by rw [hrest]; rfl)) ?_
  refine finds_firstOf_head (Finds.named ?_ _)
  rw [htext]
  refine (finds_character first _).bind ?_
  rintro ⟨_, a⟩ rfl
  refine (finds_gap _).bind fun _ _ => ?_
  rw [show "..".toList = ['.', '.'] from rfl, List.cons_append, dropGap_solid (by decide)]
  refine (finds_sign "range_operator" ".." _).bind fun _ _ => (finds_gap _).bind fun _ _ => ?_
  rw [quoteChar_toList, List.cons_append, dropGap_solid (by decide), ← List.cons_append,
    ← quoteChar_toList]
  refine (finds_character last k).bind ?_
  rintro ⟨_, b⟩ rfl
  exact finds_pure (P := fun t : Term => t.Writes (.range first last))
    (Term.Writes.leaf (a.upTo b) rfl) k

end Terminals

/-! ## Signs of repetitions -/

/-- The sign of repetition, without a fault if the count is sound. -/
def Postfix.Writes (p : Postfix) (times : Times) : Prop :=
  p.times = times ∧ (times.isSound = true → p.fault = none)

theorem finds_count (n : Nat) {c : Char} (hc : c.isDigit = false) (k : List Char) :
    count.Finds ((toString n).toList ++ c :: k) (fun x => x.1 = n) (c :: k) :=
  (finds_plain (P := (· = n)) (by rw [digits?_repr n hc]; rfl) (number_toDigits n)).located.named _

theorem refuses_count {c : Char} (hc : c.isDigit = false) (k : List Char) :
    count.Refuses (c :: k) := by
  have hd : digits? (c :: k) = none := by
    rw [digits?, List.takeWhile_cons, hc]
    rfl
  exact (refuses_plain (by rw [hd]; rfl)).located.named _

theorem head_toString (n : Nat) (k : List Char) :
    ∃ d s, (toString n).toList ++ k = d :: s ∧ d.isDigit = true := by
  have hl : (toString n).toList = Nat.toDigits 10 n := Nat.toList_repr
  cases hs : Nat.toDigits 10 n with
  | nil => exact absurd hs Nat.toDigits_ne_nil
  | cons d s =>
    refine ⟨d, s ++ k, by rw [hl, hs]; rfl, isDigit_toDigits (n := n) d ?_⟩
    rw [hs]
    exact List.mem_cons_self

theorem dropGap_toString (n : Nat) (k : List Char) :
    dropGap ((toString n).toList ++ k) = (toString n).toList ++ k := by
  obtain ⟨d, s, he, hd⟩ := head_toString n k
  rw [he, dropGap_solid]
  refine startsGap_of_continuesName ?_
  simp [continuesName, Char.isAlphanum, hd]

theorem refuses_sign_toString {name w : String} {c : Char} (hw : w.toList = [c])
    (hc : c.isDigit = false) (n : Nat) (k : List Char) :
    (sign name w).Refuses ((toString n).toList ++ k) := by
  obtain ⟨d, s, he, hd⟩ := head_toString n k
  rw [he]
  refine refuses_sign_of_ne hw ?_
  rintro rfl
  rw [hc] at hd
  cases hd

section Braced

variable {α : Type} {r : Reader α} {P : α → Prop} {s k : List Char}

theorem finds_braced (name : String) (hs : dropGap s = s) (h : r.Finds s P ('\x7d' :: k)) :
    (braced name r).Finds ('\x7b' :: s) (fun x => P x.1) k := by
  refine Finds.named (Finds.located (P := P) ?_) _
  refine (finds_sign "opening_brace" "\x7b" s).bind fun _ _ => (finds_gap s).bind fun _ _ => ?_
  rw [hs]
  refine h.bind fun x hx => (finds_gap _).bind fun _ _ => ?_
  rw [dropGap_solid (by decide)]
  exact (finds_sign "closing_brace" "\x7d" k).bind fun _ _ => finds_pure hx k

theorem refuses_braced (name : String) (hs : dropGap s = s) (h : r.Refuses s) :
    (braced name r).Refuses ('\x7b' :: s) := by
  refine Refuses.named (Refuses.located ?_) _
  refine (finds_sign "opening_brace" "\x7b" s).then_refuses fun _ _ =>
    (finds_gap s).then_refuses fun _ _ => ?_
  rw [hs]
  exact h.bind

theorem refuses_braced_end (name : String) (hs : dropGap s = s) (h : r.Finds s P k)
    (hk : (sign "closing_brace" "\x7d").Refuses (dropGap k)) :
    (braced name r).Refuses ('\x7b' :: s) := by
  refine Refuses.named (Refuses.located ?_) _
  refine (finds_sign "opening_brace" "\x7b" s).then_refuses fun _ _ =>
    (finds_gap s).then_refuses fun _ _ => ?_
  rw [hs]
  exact h.then_refuses fun _ _ => (finds_gap k).then_refuses fun _ _ => hk.bind

end Braced

theorem hugeCount?_sound {n : Nat × Span} (h : n.1 ≤ 0xFFFFFFFF) : hugeCount? n = none :=
  if_neg (Nat.not_lt.2 h)

theorem zeroCount?_sound {n : Nat × Span} (h : 0 < n.1) : zeroCount? n = none :=
  if_neg (Nat.pos_iff_ne_zero.1 h)

/-- In front of a brace, the signs without braces are passed over. -/
theorem finds_firstOf_brace {rs : List (Reader Postfix)} {f g h : Span → Reader Postfix}
    {s k : List Char} {P : Postfix → Prop} (hrs : (firstOf rs).Finds ('\x7b' :: s) P k) :
    (firstOf ((sign "optional_operator" "?" >>= f) :: (sign "repeat_operator" "*" >>= g) ::
      (sign "repeat_once_operator" "+" >>= h) :: rs)).Finds ('\x7b' :: s) P k := by
  refine finds_firstOf_tail (refuses_sign_of_ne rfl (by decide)).bind ?_
  refine finds_firstOf_tail (refuses_sign_of_ne rfl (by decide)).bind ?_
  exact finds_firstOf_tail (refuses_sign_of_ne rfl (by decide)).bind hrs

theorem finds_postfixSign_exactly (n : Nat) (k : List Char) :
    postfixSign.Finds ((Times.exactly n).render.toList ++ k) (·.Writes (.exactly n)) k := by
  have htext : (Times.exactly n).render.toList ++ k =
      '\x7b' :: ((toString n).toList ++ '\x7d' :: k) := by
    simp [Times.render]
  rw [htext]
  refine finds_firstOf_brace (finds_firstOf_head ?_)
  refine (finds_braced _ (dropGap_toString n _) (finds_count n (by decide) k)).bind ?_
  rintro ⟨⟨_, a⟩, span⟩ rfl
  refine finds_pure (P := fun p : Postfix => p.Writes (.exactly _)) ⟨rfl, fun hs => ?_⟩ k
  simp only [Times.isSound, Bool.and_eq_true, decide_eq_true_eq] at hs
  show (hugeCount? _ <|> zeroCount? _) = none
  rw [hugeCount?_sound hs.2, zeroCount?_sound hs.1]
  rfl

/-- A count with a comma behind it is no exact count. -/
theorem refuses_exact_comma (n : Nat) (k : List Char) :
    (braced "repeat_exact" count).Refuses ('\x7b' :: ((toString n).toList ++ ',' :: k)) := by
  refine refuses_braced_end _ (dropGap_toString n _) (finds_count n (by decide) k) ?_
  rw [dropGap_solid (by decide)]
  exact refuses_sign_of_ne rfl (by decide)

theorem finds_postfixSign_atLeast (n : Nat) (k : List Char) :
    postfixSign.Finds ((Times.atLeast n).render.toList ++ k) (·.Writes (.atLeast n)) k := by
  have htext : (Times.atLeast n).render.toList ++ k =
      '\x7b' :: ((toString n).toList ++ ',' :: '\x7d' :: k) := by
    simp [Times.render]
  rw [htext]
  refine finds_firstOf_brace (finds_firstOf_tail (refuses_exact_comma n _).bind ?_)
  refine finds_firstOf_head
    ((finds_braced (P := fun x => x.1 = n) (k := k) _ (dropGap_toString n _) ?_).bind ?_)
  · refine (finds_count n (by decide) _).bind fun x hx => (finds_gap _).bind fun _ _ => ?_
    rw [dropGap_solid (by decide)]
    exact (finds_sign "comma" "," _).bind fun _ _ =>
      finds_pure (P := fun y : Nat × Span => y.1 = n) hx _
  · rintro ⟨⟨_, a⟩, span⟩ rfl
    refine finds_pure (P := fun p : Postfix => p.Writes (.atLeast _)) ⟨rfl, fun hs => ?_⟩ k
    exact hugeCount?_sound (of_decide_eq_true hs)

theorem finds_postfixSign_atMost (n : Nat) (k : List Char) :
    postfixSign.Finds ((Times.atMost n).render.toList ++ k) (·.Writes (.atMost n)) k := by
  have htext : (Times.atMost n).render.toList ++ k =
      '\x7b' :: ',' :: ' ' :: ((toString n).toList ++ '\x7d' :: k) := by
    simp [Times.render]
  have hcomma (s : List Char) : dropGap (',' :: s) = ',' :: s := dropGap_solid (by decide) s
  rw [htext]
  refine finds_firstOf_brace (finds_firstOf_tail
    (refuses_braced _ (hcomma _) (refuses_count (by decide) _)).bind ?_)
  refine finds_firstOf_tail (refuses_braced _ (hcomma _) (refuses_count (by decide) _).bind).bind ?_
  refine finds_firstOf_head
    ((finds_braced (P := fun x => x.1 = n) (k := k) _ (hcomma _) ?_).bind ?_)
  · refine (finds_sign "comma" "," _).bind fun _ _ => (finds_gap _).bind fun _ _ => ?_
    rw [dropGap_space, dropGap_toString]
    exact finds_count n (by decide) k
  · rintro ⟨⟨_, a⟩, span⟩ rfl
    refine finds_pure (P := fun p : Postfix => p.Writes (.atMost _)) ⟨rfl, fun hs => ?_⟩ k
    simp only [Times.isSound, Bool.and_eq_true, decide_eq_true_eq] at hs
    show (hugeCount? _ <|> zeroCount? _) = none
    rw [hugeCount?_sound hs.2, zeroCount?_sound hs.1]
    rfl

theorem finds_postfixSign_between (n m : Nat) (k : List Char) :
    postfixSign.Finds ((Times.between n m).render.toList ++ k) (·.Writes (.between n m)) k := by
  have htext : (Times.between n m).render.toList ++ k =
      '\x7b' :: ((toString n).toList ++ ',' :: ' ' :: ((toString m).toList ++ '\x7d' :: k)) := by
    simp [Times.render]
  rw [htext]
  refine finds_firstOf_brace (finds_firstOf_tail (refuses_exact_comma n _).bind ?_)
  refine finds_firstOf_tail (Refuses.bind ?_) ?_
  · refine refuses_braced_end (P := fun _ => True)
      (k := ' ' :: ((toString m).toList ++ '\x7d' :: k)) _ (dropGap_toString n _) ?_ ?_
    · refine (finds_count n (by decide) _).bind fun x hx => (finds_gap _).bind fun _ _ => ?_
      rw [dropGap_solid (by decide)]
      exact (finds_sign "comma" "," _).bind fun _ _ => finds_pure trivial _
    · rw [dropGap_space, dropGap_toString]
      exact refuses_sign_toString rfl (by decide) m _
  refine finds_firstOf_tail (refuses_braced _ (dropGap_toString n _)
    (refuses_sign_toString rfl (by decide) n _).bind).bind ?_
  refine finds_firstOf_head
    ((finds_braced (P := fun x => x.1.1 = n ∧ x.2.1 = m) (k := k) _ (dropGap_toString n _) ?_).bind ?_)
  · refine (finds_count n (by decide) _).bind fun x hx => (finds_gap _).bind fun _ _ => ?_
    rw [dropGap_solid (by decide)]
    refine (finds_sign "comma" "," _).bind fun _ _ => (finds_gap _).bind fun _ _ => ?_
    rw [dropGap_space, dropGap_toString]
    exact (finds_count m (by decide) k).bind fun y hy => finds_pure ⟨hx, hy⟩ _
  · rintro ⟨⟨⟨_, a⟩, ⟨_, b⟩⟩, span⟩ ⟨rfl, rfl⟩
    refine finds_pure (P := fun p : Postfix => p.Writes (.between _ _)) ⟨rfl, fun hs => ?_⟩ k
    simp only [Times.isSound, Bool.and_eq_true, decide_eq_true_eq] at hs
    show (hugeCount? _ <|> hugeCount? _ <|> zeroCount? _) = none
    rw [hugeCount?_sound hs.1.1, hugeCount?_sound hs.2, zeroCount?_sound hs.1.2]
    rfl

/-- **The sign of a repetition is read as it was written.** -/
theorem finds_postfixSign (times : Times) (k : List Char) :
    postfixSign.Finds (times.render.toList ++ k) (·.Writes times) k := by
  have sound (times : Times) (span : Span) : (pure { times, span } : Reader Postfix).Finds k
      (·.Writes times) k := finds_pure (P := fun p : Postfix => p.Writes times) ⟨rfl, fun _ => rfl⟩ k
  cases times with
  | optional =>
    exact finds_firstOf_head
      ((finds_sign "optional_operator" "?" k).bind fun _ _ => sound _ _)
  | star =>
    refine finds_firstOf_tail (refuses_sign_of_ne rfl (by decide)).bind (finds_firstOf_head ?_)
    exact (finds_sign "repeat_operator" "*" k).bind fun _ _ => sound _ _
  | plus =>
    refine finds_firstOf_tail (refuses_sign_of_ne rfl (by decide)).bind ?_
    refine finds_firstOf_tail (refuses_sign_of_ne rfl (by decide)).bind (finds_firstOf_head ?_)
    exact (finds_sign "repeat_once_operator" "+" k).bind fun _ _ => sound _ _
  | exactly n => exact finds_postfixSign_exactly n k
  | atLeast n => exact finds_postfixSign_atLeast n k
  | atMost n => exact finds_postfixSign_atMost n k
  | between n m => exact finds_postfixSign_between n m k

/-- No sign of repetition follows an operand. -/
theorem refuses_postfixSign {c : Char} (h : c ∈ operandEnds) (k : List Char) :
    postfixSign.Refuses (c :: k) := by
  have ne : ∀ d ∈ ['?', '*', '+', '\x7b'], d ≠ c := by
    revert c
    decide
  have hbrace {name : String} {α : Type} {r : Reader α} : (braced name r).Refuses (c :: k) :=
    (refuses_sign_of_ne rfl (ne '\x7b' (by decide))).bind.located.named _
  refine refuses_firstOf fun r hr => ?_
  simp only [List.mem_cons, List.not_mem_nil, or_false] at hr
  rcases hr with rfl | rfl | rfl | rfl | rfl | rfl | rfl
  · exact (refuses_sign_of_ne rfl (ne '?' (by decide))).bind
  · exact (refuses_sign_of_ne rfl (ne '*' (by decide))).bind
  · exact (refuses_sign_of_ne rfl (ne '+' (by decide))).bind
  all_goals exact hbrace.bind

end GrammarKit.Peg
