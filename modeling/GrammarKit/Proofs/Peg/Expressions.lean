import GrammarKit.Proofs.Peg.Terminals

/-!
# Expressions, written and read

An expression is written as operands with infix signs between them. An operand is a part with
signs of look-ahead in front and signs of repetition behind, and a part is a terminal or an
expression between parentheses.

* `Expr.Readable`: the expressions that generated grammars are made of.
* `Expr.operands`, `join_operands`: an expression is its operands, joined.
* `readsTo_operand`, `refuses_operand_push`: operands.
* **`readsBelow_expression`**: an expression is read as it was written.
-/

namespace GrammarKit.Peg

open Reader

/-- An infix sign. -/
def signOf (isChoice : Bool) : Char := if isChoice then '|' else '~'

/-- Texts of operands behind infix signs. -/
def itemsText (items : List (Bool × List Char)) : List Char :=
  items.flatMap fun i => ' ' :: signOf i.1 :: ' ' :: i.2

namespace Expr

/-- The expressions that generated grammars are made of, with names that can be read. -/
def Readable : Expr → Prop
  | text _ | range .. => True
  | ref name => IsRuleName name
  | notAhead body => body.Readable
  | repeated body _ => body.Readable
  | seq left right | choice left right => left.Readable ∧ right.Readable
  | anyCase _ | peek .. | push _ | ahead _ => False

/-- The number of constructors. -/
def size : Expr → Nat
  | text _ | anyCase _ | range .. | ref _ | peek .. => 1
  | push body | ahead body | notAhead body | repeated body _ => body.size + 1
  | seq left right | choice left right => left.size + right.size + 1

theorem size_pos (e : Expr) : 0 < e.size := by
  cases e <;> simp only [size] <;> omega

/-! ## Taking expressions apart -/

/-- The part that is repeated, and how often, from the inside to the outside. -/
def peel : Expr → Expr × List Times
  | repeated body times => (body.peel.1, body.peel.2 ++ [times])
  | e => (e, [])

/-- The number of negative look-aheads, and what is behind them. -/
def behindSigns : Expr → Nat × Expr
  | notAhead body => (body.behindSigns.1 + 1, body.behindSigns.2)
  | e => (0, e)

/-- The operands of a sequence: the first one, and those behind a sign. -/
def seqOperands : Expr → Expr × List (Bool × Expr)
  | seq left right => (left.seqOperands.1, left.seqOperands.2 ++ [(false, right)])
  | e => (e, [])

/-- The operands of an expression: the first one, and those behind a sign, which tells whether it
is the sign of a choice. -/
def operands : Expr → Expr × List (Bool × Expr)
  | choice left right =>
    (left.operands.1, left.operands.2 ++ (true, right.seqOperands.1) :: right.seqOperands.2)
  | e => e.seqOperands

/-- An operand as it is written. -/
def operandText (e : Expr) : List Char := (e.guard 2 e.render).toList

/-- Operands behind infix signs as they are written. -/
def itemsText (items : List (Bool × Expr)) : List Char :=
  Peg.itemsText (items.map fun i => (i.1, i.2.operandText))

theorem itemsText_append (items more : List (Bool × Expr)) :
    itemsText (items ++ more) = itemsText items ++ itemsText more := by
  rw [itemsText, List.map_append]
  exact List.flatMap_append

theorem itemsText_cons (i : Bool × Expr) (items : List (Bool × Expr)) :
    itemsText (i :: items) = ' ' :: signOf i.1 :: ' ' :: (i.2.operandText ++ itemsText items) :=
  rfl

theorem guard_of_le {e : Expr} {n : Nat} (h : n ≤ e.strength) (s : String) : e.guard n s = s :=
  if_neg (Nat.not_lt.2 h)

theorem guard_of_lt {e : Expr} {n : Nat} (h : e.strength < n) (s : String) :
    e.guard n s = "(" ++ s ++ ")" :=
  if_pos h

theorem peel_text (e : Expr) :
    (e.guard 3 e.render).toList =
      (e.peel.1.guard 3 e.peel.1.render).toList ++ e.peel.2.flatMap (·.render.toList) := by
  induction e with
  | repeated body times ih =>
    rw [guard_of_le (Nat.le_refl 3), render, String.toList_append, ih, peel, List.flatMap_append,
      List.append_assoc]
    simp
  | _ => simp [peel]

theorem peel_foldl (e : Expr) : e.peel.2.foldl repeated e.peel.1 = e := by
  induction e with
  | repeated body times ih => rw [peel, List.foldl_append, ih]; rfl
  | _ => rfl

theorem seqOperands_text (e : Expr) :
    (e.guard 1 e.render).toList = e.seqOperands.1.operandText ++ itemsText e.seqOperands.2 := by
  induction e with
  | seq left right ihl _ =>
    rw [guard_of_le (Nat.le_refl 1), render, String.toList_append, String.toList_append, ihl,
      seqOperands, itemsText_append, itemsText_cons, List.append_assoc, List.append_assoc]
    simp [itemsText, Peg.itemsText, operandText, signOf]
  | _ => simp [seqOperands, operandText, itemsText, Peg.itemsText, guard, strength]

theorem operands_text (e : Expr) :
    e.render.toList = e.operands.1.operandText ++ itemsText e.operands.2 := by
  induction e with
  | choice left right ihl _ =>
    rw [render, String.toList_append, String.toList_append, ihl, seqOperands_text right, operands,
      itemsText_append, itemsText_cons, List.append_assoc, List.append_assoc]
    simp [signOf]
  | _ => rw [operands, ← seqOperands_text, guard_of_le (by simp [strength])]; simp

/-! ## Joining operands -/

/-- The choice so far, with the sequence so far as its last branch. -/
def joinEnd (st : Option Expr × Expr) : Expr :=
  match st.1 with
  | none => st.2
  | some c => choice c st.2

/-- The choice so far and the sequence so far, once another operand has come. -/
def joinStep (st : Option Expr × Expr) (item : Bool × Expr) : Option Expr × Expr :=
  if item.1 then (some (joinEnd st), item.2) else (st.1, seq st.2 item.2)

theorem foldl_seqOperands (e : Expr) (c : Option Expr) :
    e.seqOperands.2.foldl joinStep (c, e.seqOperands.1) = (c, e) := by
  induction e with
  | seq left right ihl _ => rw [seqOperands, List.foldl_append, ihl]; rfl
  | _ => rfl

/-- An expression is its operands, joined. -/
theorem foldl_operands (e : Expr) :
    joinEnd (e.operands.2.foldl joinStep (none, e.operands.1)) = e := by
  induction e with
  | choice left right ihl _ =>
    rw [operands, List.foldl_append, List.foldl_cons]
    generalize left.operands.2.foldl joinStep (none, left.operands.1) = st at ihl ⊢
    have hstep : joinStep st (true, right.seqOperands.1) = (some left, right.seqOperands.1) := by
      rw [← ihl]
      rfl
    rw [hstep, foldl_seqOperands]
    rfl
  | _ => simp only [operands, foldl_seqOperands, joinEnd]

end Expr

/-- Terms that were read for operands behind infix signs. -/
def ItemsWrite : List (Bool × Term) → List (Bool × Expr) → Prop :=
  List.Forall₂ fun t i => t.1 = i.1 ∧ t.2.Writes i.2

/-- Operands are joined as expressions are. -/
theorem join_writes {ts : List (Bool × Term)} {items : List (Bool × Expr)}
    (h : ItemsWrite ts items) {c : Option Term} {c' : Option Expr} {t : Term} {e : Expr}
    (hc : Option.Rel Term.Writes c c') (ht : t.Writes e) :
    (join c t ts).Writes (Expr.joinEnd (items.foldl Expr.joinStep (c', e))) := by
  have hend {c : Option Term} {c' : Option Expr} {t : Term} {e : Expr}
      (hc : Option.Rel Term.Writes c c') (ht : t.Writes e) :
      (join c t []).Writes (Expr.joinEnd (c', e)) := by
    cases hc with
    | none => rw [join]; exact ht
    | some hc => rw [join]; exact hc.choice ht _
  induction h generalizing c c' t e with
  | nil => exact hend hc ht
  | @cons u i ts items hu _ ih =>
    obtain ⟨isChoice, u⟩ := u
    obtain ⟨_, f⟩ := i
    obtain ⟨rfl, hu⟩ := hu
    cases isChoice with
    | false => rw [join]; exact ih hc (ht.seq hu _)
    | true => rw [join]; exact ih (.some (hend hc ht)) hu

/-! ## Parts -/

/-- The reader finds a value with `P` in `s`. It stops at `k` or inside the gap there. -/
def Reader.ReadsTo {α : Type} (r : Reader α) (s : List Char) (P : α → Prop) (k : List Char) :
    Prop :=
  ∃ k', dropGap k' = dropGap k ∧ r.Finds s P k'

/-- The reader reads all expressions up to a size in front of a closing bracket. -/
def ReadsBelow (inner : Reader Opened) (n : Nat) : Prop :=
  ∀ e : Expr, e.Readable → e.size ≤ n → ∀ c k k', Follows k c k' → c ∈ ['\x7d', ')'] →
    inner.ReadsTo (e.render.toList ++ k) (fun x => x.hasBar = false ∧ x.body.Writes e) k

/-- The characters with which a part can start, and an operand without signs in front. -/
def startsPart (c : Char) : Bool := c == '(' || c == '"' || c == '\'' || startsName c

theorem startsPart.solid {c : Char} (h : startsPart c = true) : startsGap c = false := by
  simp only [startsPart, Bool.or_eq_true, beq_iff_eq] at h
  rcases h with ((rfl | rfl) | rfl) | h
  · rfl
  · rfl
  · rfl
  · exact startsGap_of_continuesName (continuesName_of_startsName h)

theorem startsPart.ne {c d : Char} (h : startsPart c = true) (hd : startsPart d = false) :
    d ≠ c := by
  rintro rfl
  rw [hd] at h
  cases h

/-- What `Expr.peel` leaves is not a repetition. -/
theorem Expr.peel_ne_repeated (e body : Expr) (times : Times) :
    e.peel.1 ≠ .repeated body times := by
  induction e with
  | repeated _ _ ih => exact ih
  | _ => exact fun h => by cases h

theorem Expr.head_guard {e : Expr} {n : Nat} {P : Char → Prop} (hp : P '(')
    (h : n ≤ e.strength → ∃ c s, e.render.toList = c :: s ∧ P c) :
    ∃ c s, (e.guard n e.render).toList = c :: s ∧ P c := by
  by_cases hs : e.strength < n
  · refine ⟨'(', e.render.toList ++ [')'], ?_, hp⟩
    rw [guard_of_lt hs, String.toList_append, String.toList_append]
    rfl
  · rw [guard_of_le (Nat.not_lt.1 hs)]
    exact h (Nat.not_lt.1 hs)

theorem Expr.strength_eq_three {e : Expr} (h : 3 ≤ e.strength) : e.strength = 3 := by
  cases e <;> simp [strength] at h ⊢

theorem Expr.render_range (first last : Char) :
    (range first last).render.toList =
      '\'' :: ((quotedChar '\'' first).toList ++ ['\''] ++ "..".toList ++ (quoteChar last).toList) := by
  rw [render, String.toList_append, String.toList_append, quoteChar_toList]
  rfl

/-- Nothing that binds most tightly starts with the sign of a look-ahead. -/
theorem Expr.head_render {e : Expr} (he : e.Readable) :
    ∃ c s, e.render.toList = c :: s ∧ (startsPart c = true ∨ c = '!' ∧ e.strength ≠ 3) := by
  induction e with
  | text s => exact ⟨'"', _, quoteText_toList s, .inl rfl⟩
  | range first last => exact ⟨'\'', _, render_range first last, .inl rfl⟩
  | ref name =>
    obtain ⟨⟨c, s, hn, hc, -⟩, -⟩ := he
    exact ⟨c, s, hn, .inl (by simp [startsPart, hc])⟩
  | notAhead body =>
    exact ⟨'!', _, by rw [render, String.toList_append]; rfl, .inr ⟨rfl, by simp [strength]⟩⟩
  | repeated body times ih =>
    obtain ⟨c, s, hs, hc⟩ := body.head_guard (n := 3) (P := fun c => startsPart c = true) rfl
      fun h => by
        obtain ⟨c, s, hs, hc⟩ := ih he
        exact ⟨c, s, hs, hc.resolve_right fun h' => h'.2 (strength_eq_three h)⟩
    exact ⟨c, s ++ times.render.toList, by rw [render, String.toList_append, hs]; rfl, .inl hc⟩
  | seq left right ih _ =>
    obtain ⟨c, s, hs, hc⟩ := left.head_guard (n := 1) (P := fun c => startsPart c = true ∨ c = '!')
      (.inl rfl) fun _ => by
        obtain ⟨c, s, hs, hc⟩ := ih he.1
        exact ⟨c, s, hs, hc.imp_right And.left⟩
    refine ⟨c, s ++ " ~ ".toList ++ (right.guard 2 right.render).toList, ?_,
      hc.imp_right fun h => ⟨h, by simp [strength]⟩⟩
    rw [render, String.toList_append, String.toList_append, hs]
    rfl
  | choice left right ih _ =>
    obtain ⟨c, s, hs, hc⟩ := ih he.1
    refine ⟨c, s ++ " | ".toList ++ (right.guard 1 right.render).toList, ?_,
      hc.imp_right fun h => ⟨h.1, by simp [strength]⟩⟩
    rw [render, String.toList_append, String.toList_append, hs]
    rfl
  | anyCase | peek | push | ahead => exact he.elim

/-- A part never starts with the sign of a look-ahead. -/
theorem Expr.head_part {e : Expr} (he : e.Readable) :
    ∃ c s, (e.guard 3 e.render).toList = c :: s ∧ startsPart c = true := by
  refine head_guard rfl fun h => ?_
  obtain ⟨c, s, hs, hc⟩ := head_render he
  exact ⟨c, s, hs, hc.resolve_right fun h' => h'.2 (strength_eq_three h)⟩

theorem Expr.dropGap_render {e : Expr} (he : e.Readable) (k : List Char) :
    dropGap (e.render.toList ++ k) = e.render.toList ++ k := by
  obtain ⟨c, s, hs, hc⟩ := e.head_render he
  rw [hs]
  refine dropGap_solid ?_ _
  rcases hc with hc | ⟨rfl, -⟩
  · exact startsPart.solid hc
  · rfl

section Parts

variable {inner : Reader Opened} {n : Nat}

theorem finds_parenthesized (hin : ReadsBelow inner n) {b : Expr} (hb : b.Readable)
    (hn : b.size ≤ n) (k : List Char) :
    (parenthesized inner).Finds ('(' :: (b.render.toList ++ ')' :: k)) (fun x => x.1.Writes b) k := by
  obtain ⟨k', hk', hfinds⟩ := hin b hb hn ')' _ k (.of_cons (by decide) k) (by decide)
  refine (finds_sign "opening_paren" "(" (b.render.toList ++ ')' :: k)).bind fun _ _ =>
    (finds_gap _).bind fun _ _ => ?_
  rw [Expr.dropGap_render hb]
  refine hfinds.bind fun x hx => (finds_gap _).bind fun _ _ => ?_
  rw [hk', dropGap_solid (by decide)]
  refine (finds_sign "closing_paren" ")" k).bind fun _ _ =>
    finds_pure (P := fun x : Term × Option (Span × Span) => x.1.Writes b) ?_ k
  rw [Opened.inside, hx.1]
  exact hx.2

/-- A terminal or an expression between parentheses. -/
theorem finds_part (hin : ReadsBelow inner n) {b : Expr} (hb : b.Readable)
    (hr : ∀ body times, b ≠ .repeated body times) (hn : b.strength < 3 → b.size ≤ n)
    {k k' : List Char} {c : Char} (hk : Follows k c k') :
    (orElse (parenthesized inner) (do return (← terminal inner, none))).Finds
      ((b.guard 3 b.render).toList ++ k) (fun x => x.1.Writes b) k := by
  by_cases hs : b.strength < 3
  · rw [Expr.guard_of_lt hs]
    refine Finds.orElse ?_ _
    have := finds_parenthesized hin hb (hn hs) k
    simpa using this
  · rw [Expr.guard_of_le (Nat.not_lt.1 hs)]
    have hopen {c : Char} {s : List Char} (hs : b.render.toList = c :: s) (hc : '(' ≠ c) :
        (parenthesized inner).Refuses (b.render.toList ++ k) := by
      rw [hs]
      exact (refuses_sign_of_ne rfl hc).bind
    have hterm : (parenthesized inner).Refuses (b.render.toList ++ k) ∧
        (terminal inner).Finds (b.render.toList ++ k) (·.Writes b) k := by
      cases b with
      | text s => exact ⟨hopen (quoteText_toList s) (by decide), finds_terminal_text s k⟩
      | range first last =>
        exact ⟨hopen (Expr.render_range first last) (by decide), finds_terminal_range first last k⟩
      | ref name =>
        obtain ⟨c, s, hn, hc, -⟩ := hb.1
        exact ⟨hopen hn (by rintro rfl; cases hc), finds_terminal_ref hb hk⟩
      | repeated body times => exact absurd rfl (hr body times)
      | notAhead | seq | choice => exact absurd (by simp [Expr.strength]) hs
      | anyCase | peek | push | ahead => exact hb.elim
    refine hterm.1.orElse_finds (hterm.2.bind fun t ht => ?_)
    exact finds_pure (P := fun x : Term × Option (Span × Span) => x.1.Writes b) ht k

end Parts

/-! ## Signs around parts -/

theorem Times.head_render (times : Times) :
    ∃ c s, times.render.toList = c :: s ∧ c ∈ partEnds := by
  cases times with
  | optional => exact ⟨'?', _, rfl, by decide⟩
  | star => exact ⟨'*', _, rfl, by decide⟩
  | plus => exact ⟨'+', _, rfl, by decide⟩
  | exactly | atLeast | atMost | between =>
    exact ⟨'\x7b', _, by simp only [render, String.toList_append, List.append_assoc]; rfl, by decide⟩

theorem Times.dropGap_render (times : Times) (k : List Char) :
    dropGap (times.render.toList ++ k) = times.render.toList ++ k := by
  obtain ⟨c, s, hs, hc⟩ := times.head_render
  rw [hs]
  exact dropGap_solid (solid_of_mem_partEnds c hc) _

/-- Signs of repetition as they are written. -/
def timesText (ts : List Times) : List Char := ts.flatMap (·.render.toList)

/-- A part is followed by signs of repetition, or by what follows the operand. -/
theorem Follows.timesText {k k' : List Char} {c : Char} (hk : Follows k c k') (ts : List Times) :
    ∃ c k', Follows (timesText ts ++ k) c k' := by
  cases ts with
  | nil => exact ⟨c, k', hk⟩
  | cons times ts =>
    obtain ⟨d, s, hs, hd⟩ := times.head_render
    refine ⟨d, s ++ Peg.timesText ts ++ k, ?_⟩
    rw [Peg.timesText, List.flatMap_cons, hs]
    exact .of_cons hd _

/-- The signs of repetition behind a part, and the gap behind it if there are none. -/
theorem readsTo_postfixes {k k' : List Char} {c : Char} (hk : Follows k c k')
    (hc : c ∈ operandEnds) (ts : List Times) :
    (do gap; many postfixSign).ReadsTo (timesText ts ++ k)
      (List.Forall₂ Postfix.Writes · ts) k := by
  have hrefuse : postfixSign.Refuses (dropGap (dropGap k)) := by
    rw [hk.drop, dropGap_solid hk.solid]
    exact refuses_postfixSign hc k'
  have hsolid : dropGap (dropGap k) = dropGap k := by rw [hk.drop, dropGap_solid hk.solid]
  have hpos (times : Times) : 0 < times.render.toList.length := by
    obtain ⟨d, s, hs, -⟩ := times.head_render
    rw [hs]
    exact Nat.succ_pos _
  cases ts with
  | nil =>
    refine ⟨dropGap k, hsolid, (finds_gap k).bind fun _ _ => ?_⟩
    exact finds_many_adjacent _ finds_postfixSign Times.dropGap_render hpos hrefuse [] fun _ => hsolid
  | cons times ts =>
    refine ⟨k, rfl, (finds_gap _).bind fun _ _ => ?_⟩
    have hgap : dropGap (timesText (times :: ts) ++ k) = timesText (times :: ts) ++ k := by
      rw [timesText, List.flatMap_cons, List.append_assoc, Times.dropGap_render]
    rw [hgap]
    rw [hsolid] at hrefuse
    exact finds_many_adjacent _ finds_postfixSign Times.dropGap_render hpos hrefuse (times :: ts)
      fun h => by cases h

theorem foldl_apply_writes {ps : List Postfix} {ts : List Times}
    (h : List.Forall₂ Postfix.Writes ps ts) {body : Term} {b : Expr} (hb : body.Writes b) :
    (ps.foldl Postfix.apply body).Writes (ts.foldl .repeated b) := by
  induction h generalizing body b with
  | nil => exact hb
  | cons hp _ ih =>
    obtain ⟨rfl, hfault⟩ := hp
    exact ih (hb.repeated _ hfault)

theorem withPostfixes_writes {ps : List Postfix} {ts : List Times}
    (h : List.Forall₂ Postfix.Writes ps ts) {body : Term} {b : Expr} (hb : body.Writes b)
    (parens : Option (Span × Span)) :
    (withPostfixes body parens ps).Writes (ts.foldl .repeated b) := by
  cases parens with
  | none => exact foldl_apply_writes h hb
  | some p => exact (foldl_apply_writes h (hb.withSpan _)).withSpan _

/-! ## Signs of look-aheads -/

theorem refuses_lookaheadSign_part {c : Char} (hc : startsPart c = true) (k : List Char) :
    lookaheadSign.Refuses (c :: k) :=
  refuses_lookaheadSign (startsPart.ne hc rfl).symm (startsPart.ne hc rfl).symm k

theorem finds_lookaheadSign (k : List Char) :
    lookaheadSign.Finds ('!' :: k) (fun x => x.1 = true) k := by
  refine Refuses.orElse_finds (refuses_sign_of_ne rfl (by decide)).bind ?_
  refine (finds_sign "negative_predicate_operator" "!" k).bind fun span _ => ?_
  exact finds_pure (P := fun x : Bool × Span => x.1 = true) rfl k

/-- What is read for a number of signs of negative look-ahead. -/
def LookaheadsWrite (signs : List (Bool × Span)) (n : Nat) : Prop :=
  List.Forall₂ (fun x _ => x.1 = true) signs (List.replicate n ())

theorem finds_lookaheads {c : Char} (hc : startsPart c = true) (k : List Char) (n : Nat) :
    (many lookaheadSign).Finds (List.replicate n '!' ++ c :: k) (LookaheadsWrite · n) (c :: k) := by
  have hsolid : dropGap (c :: k) = c :: k := dropGap_solid (startsPart.solid hc) k
  have htext : List.replicate n '!' = (List.replicate n ()).flatMap fun _ => ['!'] := by
    rw [List.flatMap_replicate]
    simp
  rw [htext]
  refine finds_many_adjacent (fun _ => ['!']) (fun _ s => finds_lookaheadSign s)
    (fun _ s => dropGap_solid rfl s) (fun _ => Nat.one_pos) ?_ (List.replicate n ())
    fun _ => hsolid
  rw [hsolid]
  exact refuses_lookaheadSign_part hc k

theorem withLookaheads_writes {e : Expr} {signs : List (Bool × Span)} {body : Term}
    (hs : LookaheadsWrite signs e.behindSigns.1) (hb : body.Writes e.behindSigns.2) :
    (withLookaheads signs body).Writes e := by
  induction e generalizing signs with
  | notAhead e ih =>
    cases hs with
    | @cons x _ signs _ hx hs =>
      obtain ⟨_, span⟩ := x
      cases hx
      exact (ih hs hb).notAhead _
  | _ =>
    cases hs
    exact hb

/-! ## Operands -/

namespace Expr

theorem behindSigns_readable {e : Expr} (h : e.Readable) : e.behindSigns.2.Readable := by
  induction e with
  | notAhead body ih => exact ih h
  | _ => exact h

theorem peel_readable {e : Expr} (h : e.Readable) : e.peel.1.Readable := by
  induction e with
  | repeated body times ih => exact ih h
  | _ => exact h

theorem size_behindSigns (e : Expr) : e.behindSigns.2.size + e.behindSigns.1 = e.size := by
  induction e with
  | notAhead body ih =>
    simp only [behindSigns, size]
    omega
  | _ => rfl

theorem size_peel (e : Expr) : e.peel.1.size + e.peel.2.length = e.size := by
  induction e with
  | repeated body times ih =>
    simp only [peel, List.length_append, size, List.length_singleton]
    omega
  | _ => rfl

/-- An operand is written as signs of look-ahead and what is behind them. -/
theorem operandText_eq {e : Expr} (h : e.Readable) :
    e.operandText = List.replicate e.behindSigns.1 '!' ++
      (e.behindSigns.2.guard 3 e.behindSigns.2.render).toList := by
  induction e with
  | notAhead body ih =>
    rw [operandText, guard_of_le (Nat.le_refl 2), render, String.toList_append]
    exact congrArg ('!' :: ·) (ih h)
  | ahead => exact h.elim
  | _ => simp [operandText, behindSigns, guard, strength]

/-- The expressions that can be operands if those up to size `n` can stand in parentheses. -/
structure IsOperand (n : Nat) (e : Expr) : Prop where
  readable : e.Readable
  size_le : e.size ≤ n + 1
  guarded : e.strength < 2 → e.size ≤ n

/-- If a part of an operand stands in parentheses, it is small enough. -/
theorem IsOperand.size_part {n : Nat} {e : Expr} (h : e.IsOperand n)
    (hs : e.behindSigns.2.peel.1.strength < 3) : e.behindSigns.2.peel.1.size ≤ n := by
  have hb := e.size_behindSigns
  have hp := e.behindSigns.2.size_peel
  have hle := h.size_le
  by_cases hsigns : e.behindSigns.1 = 0 ∧ e.behindSigns.2.peel.2 = []
  · -- without any sign, the part is the operand itself
    have hself : e.behindSigns.2 = e := by
      cases e with
      | notAhead body => cases hsigns.1
      | _ => rfl
    have hpart : e.behindSigns.2.peel.1 = e := by
      have := e.behindSigns.2.peel_foldl
      rw [hsigns.2] at this
      exact this.trans hself
    rw [hpart] at hs ⊢
    refine h.guarded ?_
    cases e with
    | notAhead body => cases hsigns.1
    | ahead body => exact h.readable.elim
    | seq | choice => simp [strength]
    | _ => simp [strength] at hs
  · have : 0 < e.behindSigns.1 ∨ 0 < e.behindSigns.2.peel.2.length := by
      rcases Nat.eq_zero_or_pos e.behindSigns.1 with h0 | h0
      · exact .inr (List.length_pos_iff.2 fun h' => hsigns ⟨h0, h'⟩)
      · exact .inl h0
    omega

theorem head_operand {e : Expr} (h : e.Readable) :
    ∃ c s, e.operandText = c :: s ∧ startsGap c = false ∧ c ≠ '|' := by
  obtain ⟨c, s, hs, hc⟩ := head_part (behindSigns_readable h)
  rw [operandText_eq h]
  cases e.behindSigns.1 with
  | zero => exact ⟨c, s, hs, startsPart.solid hc, (startsPart.ne hc rfl).symm⟩
  | succ n => exact ⟨'!', _, rfl, rfl, by decide⟩

end Expr

section Operands

variable {inner : Reader Opened} {n : Nat} {k k' : List Char} {c : Char}

/-- An operand, given a text that is read as its innermost part. -/
theorem readsTo_operand_of_part {e : Expr} {d : Char} {p : List Char} (hd : startsPart d = true)
    (hpart : ∀ {k c k'}, Follows k c k' →
      (orElse (parenthesized inner) (do return (← terminal inner, none))).Finds (d :: (p ++ k))
        (fun x => x.1.Writes e.behindSigns.2.peel.1) k)
    (hk : Follows k c k') (hc : c ∈ operandEnds) :
    (operand inner).ReadsTo (List.replicate e.behindSigns.1 '!' ++
      d :: (p ++ (timesText e.behindSigns.2.peel.2 ++ k))) (·.Writes e) k := by
  obtain ⟨c', k₁, hk₁⟩ := hk.timesText e.behindSigns.2.peel.2
  obtain ⟨k₂, hk₂, hpost⟩ := readsTo_postfixes hk hc e.behindSigns.2.peel.2
  obtain ⟨f, r, hf, hsolid, htag⟩ : ∃ f r, List.replicate e.behindSigns.1 '!' ++
      d :: (p ++ (timesText e.behindSigns.2.peel.2 ++ k)) = f :: r ∧
      startsGap f = false ∧ f ≠ '#' := by
    cases e.behindSigns.1 with
    | zero => exact ⟨d, _, rfl, startsPart.solid hd, (startsPart.ne hd rfl).symm⟩
    | succ n => exact ⟨'!', _, rfl, rfl, by decide⟩
  refine ⟨k₂, hk₂, Finds.named ?_ _⟩
  rw [hf]
  refine (refuses_tag htag _).opt.bind fun _ _ => ?_
  refine (finds_gap _).bind fun _ _ => ?_
  rw [dropGap_solid hsolid, ← hf]
  refine (finds_lookaheads hd _ e.behindSigns.1).bind fun signs hsigns => ?_
  refine (finds_gap _).bind fun _ _ => ?_
  rw [dropGap_solid (startsPart.solid hd)]
  refine (hpart hk₁).bind ?_
  rintro ⟨body, parens⟩ hbody
  refine hpost.bind (f := fun ps => pure (withLookaheads signs (withPostfixes body parens ps)))
    fun ps hps => ?_
  refine finds_pure (P := fun t : Term => t.Writes e) (withLookaheads_writes hsigns ?_) k₂
  have := withPostfixes_writes hps hbody parens
  rwa [Expr.peel_foldl] at this

/-- **The text is read as the operand**, whatever may follow an operand. -/
structure ReadsOperand (inner : Reader Opened) (text : List Char) (e : Expr) : Prop where
  head : ∃ c s, text = c :: s ∧ startsGap c = false ∧ c ≠ '|'
  reads : ∀ {k c k'}, Follows k c k' → c ∈ operandEnds →
    (operand inner).ReadsTo (text ++ k) (·.Writes e) k

/-- **An operand is read as it was written.** -/
theorem readsOperand_operandText (hin : ReadsBelow inner n) {e : Expr} (he : e.IsOperand n) :
    ReadsOperand inner e.operandText e := by
  obtain ⟨d, s, hs, hd⟩ := Expr.head_part (Expr.peel_readable (Expr.behindSigns_readable he.readable))
  refine ⟨Expr.head_operand he.readable, fun {k c k'} hk hc => ?_⟩
  have htext : e.operandText ++ k = List.replicate e.behindSigns.1 '!' ++
      d :: (s ++ (timesText e.behindSigns.2.peel.2 ++ k)) := by
    rw [Expr.operandText_eq he.readable, Expr.peel_text, hs]
    simp [timesText]
  rw [htext]
  refine readsTo_operand_of_part hd (fun hk => ?_) hk hc
  rw [← List.cons_append, ← hs]
  exact finds_part hin (Expr.peel_readable (Expr.behindSigns_readable he.readable))
    (Expr.peel_ne_repeated _) he.size_part hk

/-- A text that is read as a terminal is read as an operand. -/
theorem readsOperand_of_terminal {d : Char} {p : List Char} (hd : startsPart d = true)
    (hopen : '(' ≠ d) {e : Expr} (he : e.behindSigns = (0, e)) (he' : e.peel = (e, []))
    (h : ∀ k, (terminal inner).Finds (d :: (p ++ k)) (·.Writes e) k) :
    ReadsOperand inner (d :: p) e := by
  refine ⟨⟨d, p, rfl, startsPart.solid hd, (startsPart.ne hd rfl).symm⟩, fun {k c k'} hk hc => ?_⟩
  have hpart : ∀ {k}, (orElse (parenthesized inner) (do return (← terminal inner, none))).Finds
      (d :: (p ++ k)) (fun x => x.1.Writes e.behindSigns.2.peel.1) k := by
    intro k
    rw [he, he']
    refine Refuses.orElse_finds (refuses_sign_of_ne rfl hopen).bind ((h k).bind fun t ht => ?_)
    exact finds_pure (P := fun x : Term × Option (Span × Span) => x.1.Writes e) ht k
  have hread := readsTo_operand_of_part hd (fun _ => hpart) hk hc
  rwa [he, he'] at hread

/-- A name that starts with `PUSH` is no operand. -/
theorem refuses_operand_push {name : String} (hn : IsPlainName name)
    (hp : startsWithPush name.toList = true) (hk : Follows k c k') :
    (operand inner).Refuses (name.toList ++ k) := by
  obtain ⟨d, s, hs, hd, -⟩ := id hn
  have hpart : startsPart d = true := by simp [startsPart, hd]
  have hsolid := startsPart.solid hpart
  refine Refuses.named ?_ _
  rw [hs, List.cons_append]
  refine (refuses_tag (startsPart.ne hpart rfl).symm _).opt.then_refuses fun _ _ => ?_
  refine (finds_gap _).then_refuses fun _ _ => ?_
  rw [dropGap_solid hsolid]
  refine (finds_lookaheads hpart (s ++ k) 0).then_refuses fun _ _ => ?_
  refine (finds_gap _).then_refuses fun _ _ => Refuses.bind ?_
  rw [dropGap_solid hsolid]
  refine Refuses.orElse_refuses (refuses_sign_of_ne rfl ?_).bind (Refuses.bind ?_)
  · rintro rfl
    cases hd
  · rw [← List.cons_append, ← hs]
    exact refuses_terminal_push hn hp hk

/-! ## Operands behind infix signs -/

/-- An operand behind an infix sign. -/
def item (inner : Reader Opened) : Reader (Bool × Term) := do
  let isChoice ← infixSign; gap
  let t ← operand inner
  return (isChoice, t)

theorem signOf_mem (isChoice : Bool) : signOf isChoice ∈ operandEnds := by
  cases isChoice <;> decide

theorem finds_infixSign (isChoice : Bool) (k : List Char) :
    infixSign.Finds (signOf isChoice :: k) (· = isChoice) k := by
  cases isChoice with
  | false =>
    refine Finds.orElse ?_ _
    exact (finds_sign "sequence_operator" "~" k).bind fun _ _ => finds_pure (P := (· = false)) rfl k
  | true =>
    refine Refuses.orElse_finds (refuses_sign_of_ne rfl (by decide)).bind ?_
    exact (finds_sign "choice_operator" "|" k).bind fun _ _ => finds_pure (P := (· = true)) rfl k

/-- No operand follows a closing bracket. -/
theorem refuses_item_closed (hc : c ∈ ['\x7d', ')']) (k : List Char) :
    (item inner).Refuses (c :: k) := by
  have ne : ∀ d ∈ ['~', '|'], d ≠ c := by
    revert c
    decide
  refine Refuses.bind (Refuses.orElse_refuses ?_ ?_)
  · exact (refuses_sign_of_ne rfl (ne '~' (by decide))).bind
  · exact (refuses_sign_of_ne rfl (ne '|' (by decide))).bind

theorem refuses_item_push {name : String} (hn : IsPlainName name)
    (hp : startsWithPush name.toList = true) (hk : Follows k c k') (isChoice : Bool) :
    (item inner).Refuses (signOf isChoice :: ' ' :: (name.toList ++ k)) := by
  obtain ⟨d, s, hs, hd, -⟩ := id hn
  refine (finds_infixSign isChoice _).then_refuses fun _ _ => ?_
  refine (finds_gap _).then_refuses fun _ _ => Refuses.bind ?_
  rw [dropGap_space, hs, List.cons_append,
    dropGap_solid (startsGap_of_continuesName (continuesName_of_startsName hd)),
    ← List.cons_append, ← hs]
  exact refuses_operand_push hn hp hk

theorem readsTo_item {text : List Char} {e : Expr} (h : ReadsOperand inner text e)
    (isChoice : Bool) (hk : Follows k c k') (hc : c ∈ operandEnds) :
    (item inner).ReadsTo (signOf isChoice :: ' ' :: (text ++ k))
      (fun x => x.1 = isChoice ∧ x.2.Writes e) k := by
  obtain ⟨d, s, hs, hd, -⟩ := h.head
  obtain ⟨k₁, hk₁, hop⟩ := h.reads hk hc
  refine ⟨k₁, hk₁, (finds_infixSign isChoice _).bind fun b hb => ?_⟩
  refine (finds_gap _).bind fun _ _ => ?_
  rw [dropGap_space, hs, List.cons_append, dropGap_solid hd, ← List.cons_append, ← hs]
  refine hop.bind fun t ht => ?_
  exact finds_pure (P := fun x : Bool × Term => x.1 = isChoice ∧ x.2.Writes e) ⟨hb, ht⟩ k₁

theorem itemsText_cons (i : Bool × List Char) (items : List (Bool × List Char)) (k : List Char) :
    itemsText (i :: items) ++ k = ' ' :: signOf i.1 :: ' ' :: (i.2 ++ (itemsText items ++ k)) := by
  simp [itemsText]

theorem dropGap_itemsText_cons (i : Bool × List Char) (items : List (Bool × List Char))
    (k : List Char) :
    dropGap (itemsText (i :: items) ++ k) = signOf i.1 :: ' ' :: (i.2 ++ (itemsText items ++ k)) := by
  rw [itemsText_cons, dropGap_space, dropGap_solid]
  exact solid_of_mem_partEnds _ (mem_partEnds_of_mem_operandEnds _ (signOf_mem i.1))

theorem Follows.itemsText (hk : Follows k c k') (hc : c ∈ operandEnds)
    (items : List (Bool × List Char)) :
    ∃ d s, Follows (itemsText items ++ k) d s ∧ d ∈ operandEnds := by
  cases items with
  | nil => exact ⟨c, k', hk, hc⟩
  | cons i items =>
    have hsign := mem_partEnds_of_mem_operandEnds _ (signOf_mem i.1)
    refine ⟨signOf i.1, ' ' :: (i.2 ++ (Peg.itemsText items ++ k)), ?_, signOf_mem i.1⟩
    rw [itemsText_cons]
    exact .of_space hsign _

theorem length_le_itemsText (items : List (Bool × List Char)) :
    items.length ≤ (itemsText items).length := by
  induction items with
  | nil => exact Nat.le_refl 0
  | cons i items ih =>
    have := itemsText_cons i items []
    rw [List.append_nil, List.append_nil] at this
    rw [this]
    simp only [List.length_cons, List.length_append]
    omega

/-- There are not more operands than characters behind the gap. -/
theorem length_le_dropGap_itemsText {s : List Char} {items : List (Bool × List Char)}
    (hs : dropGap s = dropGap (itemsText items ++ k)) : items.length ≤ s.length := by
  have hle := length_dropGap s
  cases items with
  | nil => exact Nat.zero_le _
  | cons i items =>
    have hitems := length_le_itemsText items
    rw [hs, dropGap_itemsText_cons] at hle
    simp only [List.length_cons, List.length_append] at hle ⊢
    omega

/-- Texts that are read as operands behind the same signs. -/
def ReadsItems (inner : Reader Opened) : List (Bool × List Char) → List (Bool × Expr) → Prop :=
  List.Forall₂ fun w i => w.1 = i.1 ∧ ReadsOperand inner w.2 i.2

theorem readsTo_manyAfterGap_item {ws : List (Bool × List Char)} {items : List (Bool × Expr)}
    (h : ReadsItems inner ws items) (hk : Follows k c k') (hc : c ∈ operandEnds)
    (hstop : (item inner).Refuses (dropGap k)) {s : List Char}
    (hs : dropGap s = dropGap (itemsText ws ++ k)) {m : Nat} (hm : ws.length ≤ m) :
    (manyAfterGap (item inner) m).ReadsTo s (ItemsWrite · items) k := by
  induction h generalizing s m with
  | nil =>
    refine ⟨s, hs, (finds_manyAfterGap_nil ?_ m).mono ?_⟩
    · rw [hs]
      exact hstop
    · rintro _ rfl
      exact .nil
  | @cons w i ws items hw _ ih =>
    obtain ⟨m, rfl⟩ : ∃ m', m = m' + 1 := ⟨m - 1, by rw [List.length_cons] at hm; omega⟩
    obtain ⟨d, r, hd, hd'⟩ := hk.itemsText hc ws
    obtain ⟨s₁, hs₁, hitem⟩ := readsTo_item hw.2 w.1 hd hd'
    obtain ⟨k₁, hk₁, hrest⟩ := ih hs₁ (Nat.le_of_succ_le_succ hm)
    rw [← dropGap_itemsText_cons, ← hs] at hitem
    refine ⟨k₁, hk₁, (finds_manyAfterGap_cons hitem hrest).mono ?_⟩
    rintro _ ⟨x, xs, rfl, hx, hxs⟩
    exact .cons ⟨hx.1.trans hw.1, hx.2⟩ hxs

/-- All operands behind infix signs are read, up to a text that starts with none. -/
theorem readsTo_items {ws : List (Bool × List Char)} {items : List (Bool × Expr)}
    (h : ReadsItems inner ws items) (hk : Follows k c k') (hc : c ∈ operandEnds)
    (hstop : (item inner).Refuses (dropGap k)) {s : List Char}
    (hs : dropGap s = dropGap (itemsText ws ++ k)) :
    (do gap; many (item inner)).ReadsTo s (ItemsWrite · items) k := by
  cases h with
  | nil =>
    refine ⟨dropGap k, by rw [hk.drop, dropGap_solid hk.solid], ?_⟩
    refine (finds_gap s).bind fun _ _ => ?_
    rw [hs]
    refine (finds_many_nil hstop).mono ?_
    rintro _ rfl
    exact .nil
  | @cons w i ws items hw hws =>
    obtain ⟨d, r, hd, hd'⟩ := hk.itemsText hc ws
    obtain ⟨s₁, hs₁, hitem⟩ := readsTo_item hw.2 w.1 hd hd'
    obtain ⟨k₁, hk₁, hrest⟩ := readsTo_manyAfterGap_item hws hk hc hstop hs₁
      (length_le_dropGap_itemsText hs₁)
    refine ⟨k₁, hk₁, (finds_gap s).bind fun _ _ => ?_⟩
    rw [hs, dropGap_itemsText_cons]
    refine (finds_many_cons hitem hrest).mono ?_
    rintro _ ⟨x, xs, rfl, hx, hxs⟩
    exact .cons ⟨hx.1.trans hw.1, hx.2⟩ hxs

/-- An expression is its operands, joined, whatever stops them. -/
theorem readsTo_expressionOf {text : List Char} {e : Expr} (h : ReadsOperand inner text e)
    {ws : List (Bool × List Char)} {items : List (Bool × Expr)} (hws : ReadsItems inner ws items)
    (hk : Follows k c k') (hc : c ∈ operandEnds) (hstop : (item inner).Refuses (dropGap k)) :
    (expressionOf inner).ReadsTo (text ++ (itemsText ws ++ k))
      (fun x => x.hasBar = false ∧
        x.body.Writes (Expr.joinEnd (items.foldl Expr.joinStep (none, e)))) k := by
  obtain ⟨d, r, hd, hd'⟩ := hk.itemsText hc ws
  obtain ⟨k₁, hk₁, hop⟩ := h.reads hd hd'
  obtain ⟨k₂, hk₂, hitems⟩ := readsTo_items hws hk hc hstop hk₁
  obtain ⟨f, s, hf, hsolid, hbar⟩ := h.head
  refine ⟨k₂, hk₂, Finds.named ?_ _⟩
  rw [hf, List.cons_append]
  refine (refuses_sign_of_ne rfl hbar.symm).opt.bind ?_
  rintro _ rfl
  refine (finds_gap _).bind fun _ _ => ?_
  rw [dropGap_solid hsolid, ← List.cons_append, ← hf]
  refine hop.bind fun first hfirst => ?_
  refine hitems.bind (f := fun rest => pure (Opened.mk false (join none first rest)))
    fun rest hrest => ?_
  exact finds_pure ⟨rfl, join_writes hrest .none hfirst⟩ k₂

end Operands

/-! ## Expressions -/

namespace Expr

/-- Smaller, and readable if the whole is. -/
def Inside (o e : Expr) : Prop := o.size < e.size ∧ (e.Readable → o.Readable)

theorem Inside.of_or {o left e : Expr} {P : Prop} (h : o.Inside left ∨ o = left ∧ P)
    (hl : left.Inside e) : o.Inside e := by
  rcases h with h | ⟨rfl, -⟩
  · exact ⟨Nat.lt_trans h.1 hl.1, h.2 ∘ hl.2⟩
  · exact hl

theorem inside_seq (left right : Expr) : left.Inside (seq left right) ∧ right.Inside (seq left right) :=
  ⟨⟨by rw [size]; omega, And.left⟩, ⟨by rw [size]; omega, And.right⟩⟩

theorem inside_choice (left right : Expr) :
    left.Inside (choice left right) ∧ right.Inside (choice left right) :=
  ⟨⟨by rw [size]; omega, And.left⟩, ⟨by rw [size]; omega, And.right⟩⟩

theorem mem_seqOperands {e o : Expr} (h : o = e.seqOperands.1 ∨ o ∈ e.seqOperands.2.map Prod.snd) :
    o.Inside e ∨ o = e ∧ e.strength ≠ 1 := by
  induction e with
  | seq left right ihl _ =>
    refine .inl ?_
    simp only [seqOperands, List.map_append, List.map_cons, List.map_nil, List.mem_append,
      List.mem_singleton, ← or_assoc] at h
    rcases h with h | rfl
    · exact .of_or (ihl h) (inside_seq left right).1
    · exact (inside_seq left _).2
  | _ =>
    rcases h with rfl | h
    · exact .inr ⟨rfl, by simp [strength]⟩
    · cases h

/-- The operands of an expression are inside it, unless it is an operand itself. -/
theorem mem_operands {e o : Expr} (h : o = e.operands.1 ∨ o ∈ e.operands.2.map Prod.snd) :
    o.Inside e ∨ o = e ∧ 2 ≤ e.strength := by
  induction e with
  | choice left right ihl _ =>
    refine .inl ?_
    simp only [operands, List.map_append, List.map_cons, List.mem_append, List.mem_cons,
      ← or_assoc] at h
    rw [or_assoc] at h
    rcases h with h | h
    · exact .of_or (ihl h) (inside_choice left right).1
    · exact .of_or (mem_seqOperands h) (inside_choice left right).2
  | seq left right => exact (mem_seqOperands h).imp_right fun h => absurd rfl h.2
  | _ =>
    rcases h with rfl | h
    · exact .inr ⟨rfl, by simp [strength]⟩
    · cases h

theorem isOperand_of_mem {e o : Expr} {n : Nat} (he : e.Readable) (hn : e.size ≤ n + 1)
    (h : o = e.operands.1 ∨ o ∈ e.operands.2.map Prod.snd) : o.IsOperand n := by
  rcases mem_operands h with ⟨hlt, hr⟩ | ⟨rfl, hs⟩
  · exact ⟨hr he, by omega, fun _ => by omega⟩
  · exact ⟨he, hn, fun h => absurd h (Nat.not_lt.2 hs)⟩

end Expr

section Expressions

variable {inner : Reader Opened} {n : Nat} {k k' : List Char} {c : Char}

/-- **An expression is read as it was written**, if those between its parentheses are. -/
theorem readsBelow_expressionOf (hin : ReadsBelow inner n) :
    ReadsBelow (expressionOf inner) (n + 1) := by
  intro e he hn c k k' hk hc
  have hc' : c ∈ operandEnds :=
    (by decide : ∀ c ∈ ['\x7d', ')'], c ∈ operandEnds) c hc
  have hstop : (item inner).Refuses (dropGap k) := by
    rw [hk.drop]
    exact refuses_item_closed hc k'
  have hfirst := readsOperand_operandText hin (Expr.isOperand_of_mem he hn (.inl rfl))
  have hitems : ReadsItems inner (e.operands.2.map fun i => (i.1, i.2.operandText)) e.operands.2 := by
    rw [ReadsItems, List.forall₂_map_left_iff, List.forall₂_same]
    exact fun i hi => ⟨rfl, readsOperand_operandText hin
      (Expr.isOperand_of_mem he hn (.inr (List.mem_map_of_mem hi)))⟩
  have := readsTo_expressionOf hfirst hitems hk hc' hstop
  rw [Expr.foldl_operands, ← List.append_assoc] at this
  rw [Expr.operands_text]
  exact this

/-- **An expression is read as it was written**, through as many levels as it has constructors. -/
theorem readsBelow_expression (depth : Nat) : ReadsBelow (expression depth) depth := by
  induction depth with
  | zero => exact fun e _ hn => absurd hn (Nat.not_le.2 e.size_pos)
  | succ depth ih => exact readsBelow_expressionOf ih

end Expressions

/-! ## Levels -/

theorem Expr.length_le_guard (e : Expr) (n : Nat) (s : String) :
    s.toList.length ≤ (e.guard n s).toList.length := by
  rw [guard]
  split
  · rw [String.toList_append, String.toList_append, List.length_append, List.length_append]
    omega
  · exact Nat.le_refl _

/-- An expression has not more constructors than its text has characters. -/
theorem Expr.size_le_length {e : Expr} (he : e.Readable) : e.size ≤ e.render.toList.length := by
  induction e with
  | text s =>
    rw [render, quoteText_toList, size, List.length_cons]
    omega
  | range first last =>
    rw [render_range, size, List.length_cons]
    omega
  | ref name =>
    obtain ⟨c, s, hs, -⟩ := he.1
    rw [render, hs, size, List.length_cons]
    omega
  | notAhead body ih =>
    have := body.length_le_guard 2 body.render
    have := ih he
    rw [render, size, String.toList_append, List.length_append,
      show "!".toList.length = 1 from rfl]
    omega
  | repeated body times ih =>
    obtain ⟨c, s, hs, -⟩ := times.head_render
    have := body.length_le_guard 3 body.render
    have := ih he
    rw [render, size, String.toList_append, List.length_append, hs, List.length_cons]
    omega
  | seq left right ihl ihr =>
    have := left.length_le_guard 1 left.render
    have := right.length_le_guard 2 right.render
    have := ihl he.1
    have := ihr he.2
    rw [render, size, String.toList_append, String.toList_append, List.length_append,
      List.length_append, show " ~ ".toList.length = 3 from rfl]
    omega
  | choice left right ihl ihr =>
    have := right.length_le_guard 1 right.render
    have := ihl he.1
    have := ihr he.2
    rw [render, size, String.toList_append, String.toList_append, List.length_append,
      List.length_append, show " | ".toList.length = 3 from rfl]
    omega
  | anyCase | peek | push | ahead => exact he.elim

end GrammarKit.Peg
