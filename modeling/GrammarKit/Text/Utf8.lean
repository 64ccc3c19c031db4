/-!
# UTF-8

* `encode`: the bytes of a text.
* `decodeChar?`, `decode?`: the first character of a byte sequence, and the text of all of it.
* `IsAscii`: texts of which each character takes one byte.
-/

namespace GrammarKit.Text

/-- The bytes of a text. -/
def encode (s : List Char) : List UInt8 := s.flatMap String.utf8EncodeChar

/-- The character of that number, if there is one. -/
def scalar? (n : Nat) : Option Char :=
  if h : n.isValidChar then some (Char.ofNatAux n h) else none

/-- The six bits of a continuation byte. -/
def continuation? (b : UInt8) : Option Nat :=
  if 0x80 ≤ b ∧ b < 0xC0 then some (b.toNat - 0x80) else none

/-- The character that `lead` starts, if it takes no more bytes than it needs. -/
def wide? (least : Nat) (lead : Nat) (tail : List UInt8) : Option Char := do
  let bits ← tail.mapM continuation?
  let n := bits.foldl (fun n b => n * 64 + b) lead
  if least ≤ n then scalar? n else none

/-- The first character of a byte sequence, and the bytes behind it. -/
def decodeChar? : List UInt8 → Option (Char × List UInt8)
  | [] => none
  | b :: bs =>
    if b < 0x80 then some (Char.ofNat b.toNat, bs)
    else match b, bs with
      | b, b₁ :: bs =>
        if 0xC0 ≤ b ∧ b < 0xE0 then (wide? 0x80 (b.toNat - 0xC0) [b₁]).map (·, bs)
        else match bs with
          | b₂ :: bs =>
            if 0xE0 ≤ b ∧ b < 0xF0 then (wide? 0x800 (b.toNat - 0xE0) [b₁, b₂]).map (·, bs)
            else match bs with
              | b₃ :: bs =>
                if 0xF0 ≤ b ∧ b < 0xF8 then
                  (wide? 0x10000 (b.toNat - 0xF0) [b₁, b₂, b₃]).map (·, bs)
                else none
              | [] => none
          | [] => none
      | _, [] => none

theorem length_decodeChar? {bs rest : List UInt8} {c : Char}
    (h : decodeChar? bs = some (c, rest)) : rest.length < bs.length := by
  unfold decodeChar? at h
  repeat' split at h
  all_goals first
    | cases h; done
    | (simp only [Option.map_eq_some_iff, Prod.mk.injEq] at h
       obtain ⟨_, -, -, rfl⟩ := h
       simp only [List.length_cons]
       omega)
    | (simp only [Option.some.injEq, Prod.mk.injEq] at h
       obtain ⟨-, rfl⟩ := h
       simp)

/-- The text of a byte sequence, if it is one. -/
def decode? (bs : List UInt8) : Option (List Char) :=
  match bs with
  | [] => some []
  | b :: rest =>
    match _ : decodeChar? (b :: rest) with
    | some (c, tail) => (decode? tail).map (c :: ·)
    | none => none
termination_by bs.length
decreasing_by
  rename_i h
  exact length_decodeChar? h

/-! ## ASCII -/

/-- Texts of ASCII characters. -/
def IsAscii (s : List Char) : Prop := ∀ c ∈ s, c.toNat < 0x80

instance (s : List Char) : Decidable (IsAscii s) :=
  inferInstanceAs (Decidable (∀ c ∈ s, c.toNat < 0x80))

namespace IsAscii

theorem head {c : Char} {s : List Char} (h : IsAscii (c :: s)) : c.toNat < 0x80 :=
  h c List.mem_cons_self

theorem of_suffix {s t : List Char} (h : IsAscii s) (ht : t <:+ s) : IsAscii t :=
  fun c hc => h c (ht.subset hc)

theorem tail {c : Char} {s : List Char} (h : IsAscii (c :: s)) : IsAscii s :=
  h.of_suffix (List.suffix_cons c s)

end IsAscii

theorem encode_cons {c : Char} (h : c.toNat < 0x80) (s : List Char) :
    encode (c :: s) = c.toNat.toUInt8 :: encode s := by
  have hchar : String.utf8EncodeChar c = [c.toNat.toUInt8] := if_pos (Nat.le_of_lt_succ h)
  rw [encode, List.flatMap_cons, hchar, List.singleton_append]
  rfl

end GrammarKit.Text
