import GrammarKit.Text.Utf8

/-!
# Bytes of ASCII texts

* `decodeChar?_ascii`, `decodeChar?_wide`: the first character of a byte sequence is ASCII exactly
  if its first byte is, and then takes this byte.
* `length_encode`: ASCII texts have as many bytes as characters.
* **`isPrefixOf_encode`**, `drop_encode`: bytes of a text stand in front of the bytes of an ASCII text
  exactly if the text stands in front of it.
-/

namespace GrammarKit.Text

/-! ## Characters -/

theorem toNat_ofNat {n : Nat} (h : n < 0x80) : (Char.ofNat n).toNat = n := by
  have hvalid : n.isValidChar := .inl (by omega)
  have hchar : Char.ofNat n = Char.ofNatAux n hvalid := dif_pos hvalid
  rw [hchar]
  rfl

theorem decodeChar?_ascii {b : UInt8} (h : b.toNat < 0x80) (bs : List UInt8) :
    decodeChar? (b :: bs) = some (Char.ofNat b.toNat, bs) := by
  rw [decodeChar?.eq_def]
  exact if_pos (UInt8.lt_iff_toNat_lt.2 h)

/-- A character of several bytes takes at least as many as it needs. -/
theorem le_of_wide? {least lead : Nat} {tail : List UInt8} {c : Char}
    (h : wide? least lead tail = some c) : least ≤ c.toNat := by
  obtain ⟨bits, -, h⟩ := Option.bind_eq_some_iff.1 h
  simp only at h
  split at h
  · rename_i hle
    obtain ⟨_, ⟨⟩⟩ := Option.dite_none_right_eq_some.1 h
    exact hle
  · cases h

theorem decodeChar?_wide {b : UInt8} {bs rest : List UInt8} {c : Char} (hb : ¬ b.toNat < 0x80)
    (h : decodeChar? (b :: bs) = some (c, rest)) : 0x80 ≤ c.toNat := by
  rw [decodeChar?.eq_def] at h
  have hlead : ¬ b < 0x80 := fun hlt => hb (UInt8.lt_iff_toNat_lt.1 hlt)
  simp only [if_neg hlead] at h
  repeat' split at h
  all_goals first
    | contradiction
    | (simp only [Option.map_eq_some_iff, Prod.mk.injEq] at h
       obtain ⟨d, hd, rfl, -⟩ := h
       have hle := le_of_wide? hd
       omega)

/-- A text that is not empty has a first character. -/
theorem decode?_cons_eq_some {b : UInt8} {bs : List UInt8} {w : List Char}
    (h : decode? (b :: bs) = some w) :
    ∃ c tail v, decodeChar? (b :: bs) = some (c, tail) ∧ decode? tail = some v ∧ w = c :: v := by
  rw [decode?] at h
  split at h
  · rename_i c tail hchar
    obtain ⟨v, hv, rfl⟩ := Option.map_eq_some_iff.1 h
    exact ⟨c, tail, v, hchar, hv, rfl⟩
  · cases h

/-! ## Texts -/

variable {s : List Char}

theorem length_encode (hs : IsAscii s) : (encode s).length = s.length := by
  induction s with
  | nil => rfl
  | cons c s ih => rw [encode_cons hs.head, List.length_cons, List.length_cons, ih hs.tail]

/-- What stands at the end of the bytes of an ASCII text are the bytes of an end of it. -/
theorem exists_encode_of_suffix (hs : IsAscii s) {u : List UInt8} (h : u <:+ encode s) :
    ∃ t, t <:+ s ∧ encode t = u := by
  induction s with
  | nil => exact ⟨[], List.suffix_rfl, (List.suffix_nil.1 h).symm⟩
  | cons c s ih =>
    rw [encode_cons hs.head, List.suffix_cons_iff] at h
    rcases h with rfl | h
    · exact ⟨c :: s, List.suffix_rfl, encode_cons hs.head s⟩
    · obtain ⟨t, ht, htu⟩ := ih hs.tail h
      exact ⟨t, ht.trans (List.suffix_cons c s), htu⟩

theorem toNat_toUInt8 {c : Char} (h : c.toNat < 0x80) : c.toNat.toUInt8.toNat = c.toNat :=
  Nat.mod_eq_of_lt (by omega)

/-- **Bytes in front of an ASCII text** are a text in front of it. -/
theorem isPrefixOf_encode {bytes : List UInt8} {w : List Char} (h : decode? bytes = some w)
    (hs : IsAscii s) : bytes.isPrefixOf (encode s) = w.isPrefixOf s := by
  induction w generalizing bytes s with
  | nil =>
    cases bytes with
    | nil => rfl
    | cons b bs =>
      obtain ⟨c, tail, v, -, -, hw⟩ := decode?_cons_eq_some h
      cases hw
  | cons c w ih =>
    cases bytes with
    | nil => rw [decode?] at h; cases h
    | cons b bs =>
      obtain ⟨_, tail, _, hchar, htail, ⟨⟩⟩ := decode?_cons_eq_some h
      cases s with
      | nil => rfl
      | cons d s =>
        have hd := hs.head
        rw [encode_cons hd, List.isPrefixOf_cons_cons, List.isPrefixOf_cons_cons]
        by_cases hb : b.toNat < 0x80
        · rw [decodeChar?_ascii hb] at hchar
          cases hchar
          have hhead : (b == d.toNat.toUInt8) = (Char.ofNat b.toNat == d) := by
            rw [Bool.eq_iff_iff, beq_iff_eq, beq_iff_eq, ← UInt8.toNat_inj, ← Char.toNat_inj,
              toNat_ofNat hb, toNat_toUInt8 hd]
          rw [hhead, ih htail hs.tail]
        · -- neither the byte nor its character is ASCII
          have hc := decodeChar?_wide hb hchar
          have hbyte : (b == d.toNat.toUInt8) = false := by
            rw [beq_eq_false_iff_ne, Ne, ← UInt8.toNat_inj, toNat_toUInt8 hd]
            omega
          have hfirst : (c == d) = false := by
            rw [beq_eq_false_iff_ne]
            rintro rfl
            omega
          rw [hbyte, hfirst, Bool.false_and, Bool.false_and]

/-- What is left behind these bytes is what is left behind this text. -/
theorem drop_encode {bytes : List UInt8} {w : List Char} (h : decode? bytes = some w)
    (hs : IsAscii s) (hw : w.isPrefixOf s = true) :
    (encode s).drop bytes.length = encode (s.drop w.length) := by
  induction w generalizing bytes s with
  | nil =>
    cases bytes with
    | nil => rfl
    | cons b bs =>
      obtain ⟨c, tail, v, -, -, hw⟩ := decode?_cons_eq_some h
      cases hw
  | cons c w ih =>
    cases bytes with
    | nil => rw [decode?] at h; cases h
    | cons b bs =>
      obtain ⟨_, tail, _, hchar, htail, ⟨⟩⟩ := decode?_cons_eq_some h
      cases s with
      | nil => cases hw
      | cons d s =>
        rw [List.isPrefixOf_cons_cons, Bool.and_eq_true, beq_iff_eq] at hw
        obtain ⟨rfl, hw⟩ := hw
        have hb : b.toNat < 0x80 := Decidable.byContradiction fun hb =>
          absurd hs.head (Nat.not_lt.2 (decodeChar?_wide hb hchar))
        rw [decodeChar?_ascii hb] at hchar
        cases hchar
        rw [encode_cons hs.head, List.length_cons, List.length_cons, List.drop_succ_cons,
          List.drop_succ_cons]
        exact ih htail hs.tail hw

end GrammarKit.Text
