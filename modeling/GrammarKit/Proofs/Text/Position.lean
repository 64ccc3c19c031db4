import GrammarKit.Text.Position

/-!
# Places and boundaries

A place of a text is behind some of its first characters. Its offset is a boundary between two
characters of the UTF-8 form, and its line and its column tell it from all other places.

* `IsLastLine`, `Position.IsBehind`: what line and column of a place say; `isBehind_iff`.
* `isValid_iff`: the boundaries of a text are the offsets of its places.
* `upToByte`, `Position.atByte`: the place at a boundary.
* `offsetOf?`: the way from line and column back to the offset.
* **`offsetOf?_eq_some_iff`**: it finds the places of a text and nothing else.
-/

namespace GrammarKit.Text

variable {s t l : List Char} {c : Char} {p : Position}

/-! ## The last line -/

/-- `l` is what `s` has behind its last line feed, or all of it if there is none. -/
def IsLastLine (l s : List Char) : Prop := '\n' ∉ l ∧ (s = l ∨ ∃ front, s = front ++ '\n' :: l)

theorem lastLine_append (s : List Char) (h : '\n' ∉ l) : lastLine (s ++ l) = lastLine s ++ l := by
  have hall : ∀ d ∈ l.reverse, (d != '\n') = true := fun d hd =>
    bne_iff_ne.2 fun he => h (he ▸ List.mem_reverse.1 hd)
  rw [lastLine, List.reverse_append, List.takeWhile_append_of_pos hall, List.reverse_append,
    List.reverse_reverse, lastLine]

theorem lastLine_feed (s : List Char) : lastLine (s ++ ['\n']) = [] := by
  rw [lastLine, List.reverse_append]
  rfl

theorem IsLastLine.eq (h : IsLastLine l s) : l = lastLine s := by
  obtain ⟨hl, rfl | ⟨front, rfl⟩⟩ := h
  · exact (lastLine_append [] hl).symm
  · rw [List.append_cons, lastLine_append _ hl, lastLine_feed, List.nil_append]

theorem exists_isLastLine (s : List Char) : ∃ l, IsLastLine l s := by
  induction s with
  | nil => exact ⟨[], List.not_mem_nil, .inl rfl⟩
  | cons c s ih =>
    obtain ⟨l, hl, rfl | ⟨front, rfl⟩⟩ := ih
    · by_cases hc : c = '\n'
      · exact ⟨s, hl, .inr ⟨[], by rw [hc, List.nil_append]⟩⟩
      · exact ⟨c :: s, by simp [Ne.symm hc, hl], .inl rfl⟩
    · exact ⟨l, hl, .inr ⟨c :: front, rfl⟩⟩

theorem isLastLine_iff : IsLastLine l s ↔ l = lastLine s := by
  refine ⟨IsLastLine.eq, ?_⟩
  rintro rfl
  obtain ⟨l, hl⟩ := exists_isLastLine s
  exact hl.eq ▸ hl

/-! ## Places -/

/-- **A place right behind a text**: its bytes, one more than its line feeds, and one more than the
characters behind the last of them. -/
structure Position.IsBehind (p : Position) (s : List Char) : Prop where
  offset : p.offset = (String.ofList s).utf8ByteSize
  line : p.line = s.count '\n' + 1
  column : ∃ l, IsLastLine l s ∧ p.column = l.length + 1

/-- The bytes of a text are those of the string. -/
theorem byteLength_eq (s : List Char) : byteLength s = (String.ofList s).utf8ByteSize := by
  induction s with
  | nil => rfl
  | cons c s ih =>
    rw [byteLength_cons, ih, String.ofList_cons, String.utf8ByteSize_append,
      String.utf8ByteSize_singleton]

theorem Position.isBehind_iff : p.IsBehind s ↔ p = .after s := by
  constructor
  · rintro ⟨hoffset, hline, l, hl, hcolumn⟩
    obtain ⟨offset, line, column⟩ := p
    rw [Position.after, byteLength_eq, ← hl.eq, ← hoffset, ← hline, ← hcolumn]
  · rintro rfl
    exact ⟨byteLength_eq s, rfl, lastLine s, isLastLine_iff.2 rfl, rfl⟩

theorem Position.before_eq (s rest : List Char) : Position.before (s ++ rest) rest = .after s := by
  rw [Position.before, List.length_append, Nat.add_sub_cancel, List.take_left]

/-- **The boundaries of a text** are where the bytes of some of its first characters end. -/
theorem isValid_iff {source : String} {b : String.Pos.Raw} :
    b.IsValid source ↔ ∃ s t, source.toList = s ++ t ∧ b.byteIdx = byteLength s := by
  rw [String.Pos.Raw.isValid_iff_exists_append]
  constructor
  · rintro ⟨front, back, rfl, rfl⟩
    refine ⟨front.toList, back.toList, String.toList_append, ?_⟩
    rw [byteLength_eq, String.ofList_toList, String.byteIdx_rawEndPos]
  · rintro ⟨s, t, hsource, hb⟩
    refine ⟨String.ofList s, String.ofList t, ?_, String.Pos.Raw.ext ?_⟩
    · rw [← String.ofList_append, ← hsource, String.ofList_toList]
    · rw [hb, byteLength_eq, String.byteIdx_rawEndPos]

/-- The characters of a text that the first `n` bytes hold. -/
def upToByte : Nat → List Char → List Char
  | _, [] => []
  | n, c :: s => if c.utf8Size ≤ n then c :: upToByte (n - c.utf8Size) s else []

theorem upToByte_append (s t : List Char) : upToByte (byteLength s) (s ++ t) = s := by
  induction s with
  | nil =>
    cases t with
    | nil => rfl
    | cons c t => exact if_neg (Nat.not_le.2 c.utf8Size_pos)
  | cons c s ih =>
    rw [List.cons_append, byteLength_cons, upToByte, if_pos (Nat.le_add_right _ _),
      Nat.add_sub_cancel_left, ih]

/-- The place at the boundary `n` of a text. -/
def Position.atByte (s : List Char) (n : Nat) : Position := .after (upToByte n s)

theorem Position.atByte_append (s t : List Char) :
    Position.atByte (s ++ t) (byteLength s) = .after s := by
  rw [Position.atByte, upToByte_append]

/-! ## Back to the offset -/

/-- The offset of the place in a line and a column, if the text has it. -/
def offsetOf? : List Char → Nat → Nat → Option Nat
  | [], line, column => if line = 1 ∧ column = 1 then some 0 else none
  | c :: s, line, column =>
    if line = 1 ∧ column = 1 then some 0
    else if c = '\n' then
      if line = 1 then none else (offsetOf? s (line - 1) column).map (c.utf8Size + ·)
    else (offsetOf? s line (if line = 1 then column - 1 else column)).map (c.utf8Size + ·)

/-- A place as it is with one more character in front of the text. -/
def Position.behind (c : Char) (p : Position) : Position where
  offset := c.utf8Size + p.offset
  line := if c = '\n' then p.line + 1 else p.line
  column := if c ≠ '\n' ∧ p.line = 1 then p.column + 1 else p.column

theorem lastLine_cons (c : Char) (s : List Char) :
    lastLine (c :: s) = if c ≠ '\n' ∧ '\n' ∉ s then c :: s else lastLine s := by
  split
  · rename_i h
    exact (IsLastLine.eq ⟨List.not_mem_cons_of_ne_of_not_mem (Ne.symm h.1) h.2, .inl rfl⟩).symm
  · rename_i h
    obtain ⟨hl, hs | ⟨front, hs⟩⟩ := isLastLine_iff.2 (rfl : lastLine s = lastLine s)
    · have hc : c = '\n' := Decidable.byContradiction fun hc => h ⟨hc, hs ▸ hl⟩
      exact (IsLastLine.eq ⟨hl, .inr ⟨[], by rw [hc, ← hs]; rfl⟩⟩).symm
    · exact (IsLastLine.eq ⟨hl, .inr ⟨c :: front, by rw [List.cons_append, ← hs]⟩⟩).symm

theorem Position.line_after_eq_one : (Position.after s).line = 1 ↔ '\n' ∉ s := by
  rw [Position.after, Nat.add_eq_right, List.count_eq_zero]

theorem Position.after_cons (c : Char) (s : List Char) :
    Position.after (c :: s) = (Position.after s).behind c := by
  simp only [Position.behind, Position.line_after_eq_one]
  simp only [Position.after, Position.mk.injEq, lastLine_cons]
  refine ⟨rfl, ?_, ?_⟩
  · by_cases hc : c = '\n'
    · rw [if_pos hc, hc, List.count_cons_self]
    · rw [if_neg hc, List.count_cons_of_ne hc]
  · split
    · rename_i h
      rw [List.length_cons, ← IsLastLine.eq ⟨h.2, .inl rfl⟩]
    · rfl

theorem Position.one_le_line (s : List Char) : 1 ≤ (Position.after s).line := Nat.le_add_left 1 _

theorem Position.one_le_column (s : List Char) : 1 ≤ (Position.after s).column :=
  Nat.le_add_left 1 _

/-- One more character in front moves the place and what is found alike. -/
theorem offsetOf?_behind (c : Char) (s : List Char) (hline : 1 ≤ p.line) (hcolumn : 1 ≤ p.column) :
    offsetOf? (c :: s) (p.behind c).line (p.behind c).column =
      (offsetOf? s p.line p.column).map (c.utf8Size + ·) := by
  have hline' : p.line ≠ 0 := by omega
  have hcolumn' : p.column ≠ 0 := by omega
  by_cases hc : c = '\n'
  · simp [offsetOf?, Position.behind, hc, hline']
  · by_cases hone : p.line = 1
    · simp [offsetOf?, Position.behind, hc, hone, hcolumn']
    · simp [offsetOf?, Position.behind, hc, hone]

/-- The place at the end of some of a text's first characters is found. -/
theorem offsetOf?_append (s t : List Char) : offsetOf? (s ++ t) (Position.after s).line
    (Position.after s).column = some (Position.after s).offset := by
  induction s with
  | nil => cases t <;> rfl
  | cons c s ih =>
    rw [Position.after_cons, List.cons_append,
      offsetOf?_behind c _ (Position.one_le_line s) (Position.one_le_column s), ih]
    rfl

/-- What is found is the end of some of the text's first characters. -/
theorem exists_of_offsetOf? {n line column : Nat} (h : offsetOf? s line column = some n) :
    ∃ front back, s = front ++ back ∧ Position.after front = ⟨n, line, column⟩ := by
  induction s generalizing n line column with
  | nil =>
    obtain ⟨⟨rfl, rfl⟩, h⟩ := Option.ite_none_right_eq_some.1 h
    cases h
    exact ⟨[], [], rfl, rfl⟩
  | cons c s ih =>
    rw [offsetOf?] at h
    split at h
    · rename_i hfirst
      cases h
      exact ⟨[], c :: s, rfl, by rw [hfirst.1, hfirst.2]; rfl⟩
    · split at h
      · rename_i hc
        split at h
        · cases h
        · obtain ⟨m, hm, rfl⟩ := Option.map_eq_some_iff.1 h
          obtain ⟨front, back, rfl, hfront⟩ := ih hm
          -- lines start from one, so the line feed is taken off no earlier than in the second one
          have hline : 1 ≤ line - 1 := by
            have hone := Position.one_le_line front
            rwa [hfront] at hone
          have hback : line - 1 + 1 = line := by omega
          refine ⟨c :: front, back, rfl, ?_⟩
          rw [Position.after_cons, hfront]
          simp [Position.behind, hc, hback]
      · rename_i hc
        obtain ⟨m, hm, rfl⟩ := Option.map_eq_some_iff.1 h
        obtain ⟨front, back, rfl, hfront⟩ := ih hm
        have hcolumn : 1 ≤ if line = 1 then column - 1 else column := by
          have hone := Position.one_le_column front
          rwa [hfront] at hone
        have hback : (if line = 1 then (if line = 1 then column - 1 else column) + 1
            else if line = 1 then column - 1 else column) = column := by
          by_cases hone : line = 1
          · rw [if_pos hone] at hcolumn
            rw [if_pos hone, if_pos hone]
            omega
          · rw [if_neg hone, if_neg hone]
        refine ⟨c :: front, back, rfl, ?_⟩
        rw [Position.after_cons, hfront]
        simp [Position.behind, hc, hback]

/-- **Line and column name the places of a text** and nothing else. -/
theorem offsetOf?_eq_some_iff {n line column : Nat} : offsetOf? s line column = some n ↔
    ∃ front back, s = front ++ back ∧ Position.after front = ⟨n, line, column⟩ := by
  refine ⟨exists_of_offsetOf?, ?_⟩
  rintro ⟨front, back, rfl, h⟩
  have hfound := offsetOf?_append front back
  rwa [h] at hfound

end GrammarKit.Text
