import GrammarKit.Code.Lexer

/-!
# An identifier and what stands around it

A text that is one identifier consists of blanks and comments, a word, and again blanks and
comments; a byte order mark may stand in front of all.

* `Surrounded`: a word with blanks and comments around it.
* **`exists_surrounded`**: a text that is an identifier has this form.
-/

namespace GrammarKit.Code

open Text

/-- **A word with blanks and comments around it**: `word` is the text from the word on, `behind`
the text behind it. -/
structure Surrounded (s word behind : List Char) : Prop where
  front : skipTrivia s.length s = word
  word : afterAnyIdent? word = some behind
  back : skipTrivia behind.length behind = []

/-- Nothing but blanks and comments is left where no lexeme is. -/
theorem skipTrivia_of_lexUpTo {n : Nat} {s rest : List Char}
    (h : lexUpTo none n s = some ([], rest)) : skipTrivia s.length s = [] := by
  cases n with
  | zero => cases h
  | succ n =>
    rw [lexUpTo] at h
    split at h
    · assumption
    · exfalso
      split at h
      · obtain ⟨⟨more, rest'⟩, -, h⟩ := Option.bind_eq_some_iff.1 h
        simp [docAttribute] at h
      · split at h
        · obtain ⟨⟨body, rest'⟩, -, h⟩ := Option.bind_eq_some_iff.1 h
          obtain ⟨⟨more, rest''⟩, -, h⟩ := Option.bind_eq_some_iff.1 h
          simp at h
        · split at h
          · simp at h
          · obtain ⟨⟨x, rest'⟩, -, h⟩ := Option.bind_eq_some_iff.1 h
            obtain ⟨⟨more, rest''⟩, -, h⟩ := Option.bind_eq_some_iff.1 h
            simp at h

theorem afterAnyIdent?_of_leaf? {s rest : List Char} {w : String}
    (h : leaf? s = some (.word w, rest)) : afterAnyIdent? s = some rest := by
  rw [leaf?] at h
  split at h
  · simp at h
  · split at h
    · rename_i r hr
      rw [signOrLifetime?.eq_def] at hr
      split at hr
      · obtain ⟨t, -, ht⟩ := Option.bind_eq_some_iff.1 hr
        split at ht
        · cases ht
        · cases ht
          simp at h
      · split at hr
        · cases hr
          simp at h
        · cases hr
      · cases hr
    · split at h
      · cases h
      · obtain ⟨t, ht, hw⟩ := Option.map_eq_some_iff.1 h
        rw [ht, (Prod.mk.inj hw).2]

theorem surrounded_of_lexUpTo {n : Nat} {s rest : List Char} {w : String}
    (h : lexUpTo none n s = some ([.word w], rest)) : ∃ word behind, Surrounded s word behind := by
  cases n with
  | zero => cases h
  | succ n =>
    rw [lexUpTo] at h
    split at h
    · simp at h
    · rename_i c t hfront
      split at h
      · obtain ⟨⟨more, rest'⟩, -, h⟩ := Option.bind_eq_some_iff.1 h
        simp [docAttribute] at h
      · split at h
        · obtain ⟨⟨body, rest'⟩, -, h⟩ := Option.bind_eq_some_iff.1 h
          obtain ⟨⟨more, rest''⟩, -, h⟩ := Option.bind_eq_some_iff.1 h
          simp at h
        · split at h
          · simp at h
          · obtain ⟨⟨x, behind⟩, hleaf, h⟩ := Option.bind_eq_some_iff.1 h
            obtain ⟨⟨more, rest'⟩, hmore, h⟩ := Option.bind_eq_some_iff.1 h
            obtain ⟨hx, -⟩ := Prod.mk.inj (Option.some.inj h)
            obtain ⟨rfl, rfl⟩ := List.cons.inj hx
            exact ⟨c :: t, behind, hfront, afterAnyIdent?_of_leaf? hleaf,
              skipTrivia_of_lexUpTo hmore⟩

/-- **A text that is an identifier** is a word with blanks and comments around it, behind a byte
order mark if there is one. -/
theorem exists_surrounded {text : String} (h : isIdentifier text = true) :
    ∃ s word behind, Surrounded s word behind ∧
      (text.toList = s ∨ ∃ c, c.toNat = 0xFEFF ∧ text.toList = c :: s) := by
  have hword : ∃ w, lex? text = some [.word w] := by
    rw [isIdentifier] at h
    split at h
    · exact ⟨_, ‹_›⟩
    · cases h
  obtain ⟨w, hlex⟩ := hword
  have hof {n : Nat} {s : List Char} (hs : (lexUpTo none n s).map Prod.fst = some [.word w]) :
      ∃ word behind, Surrounded s word behind := by
    obtain ⟨⟨lexemes, rest⟩, hs, rfl⟩ := Option.map_eq_some_iff.1 hs
    exact surrounded_of_lexUpTo hs
  rw [lex?] at hlex
  cases htext : text.toList with
  | nil =>
    rw [htext] at hlex
    obtain ⟨word, behind, hs⟩ := hof hlex
    exact ⟨_, word, behind, hs, .inl rfl⟩
  | cons c t =>
    rw [htext] at hlex
    simp only at hlex
    split at hlex
    · obtain ⟨word, behind, hs⟩ := hof hlex
      exact ⟨_, word, behind, hs, .inr ⟨c, ‹_›, rfl⟩⟩
    · obtain ⟨word, behind, hs⟩ := hof hlex
      exact ⟨_, word, behind, hs, .inl rfl⟩

end GrammarKit.Code
