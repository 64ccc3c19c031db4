import GrammarKit.Proofs.Peg.Words

/-!
# Literals of grammar texts

A text is written between quotes and a character between single quotes, with escapes for the quote,
the backslash and what is not printable ASCII. The reader of grammar texts takes such a literal and
no more, and its escapes stand for the text or the character that was written. So what is written
for one text is never the start of what is written for another one.

* `unescape?_quoted`: escapes stand for what was written, in texts and in characters.
* `injective_quoteText_append`: a literal is told from all others whatever follows.
* **`finds_literals`**: literals are read as what they were written for.
-/

namespace GrammarKit.Peg

open Reader

/-! ## Escapes -/

/-- The characters of `s` as they stand between quotes. -/
def quotedChars (quote : Char) (s : List Char) : List Char :=
  s.flatMap fun c => (quotedChar quote c).toList

variable {quote : Char}

/-- **Escapes stand for what was written**, in front of whatever follows. -/
theorem unescape?_quoted (hq : quote = '"' ∨ quote = '\'') (s k : List Char) (n : Nat) :
    unescape? (s.length + n) (quotedChars quote s ++ k) = (unescape? n k).map (s ++ ·) := by
  induction s with
  | nil => simp [quotedChars]
  | cons c s ih =>
    have hmap : (unescape? (s.length + n) (quotedChars quote s ++ k)).map (c :: ·) =
        (unescape? n k).map (c :: s ++ ·) := by
      rw [ih, Option.map_map]
      rfl
    rw [List.length_cons, Nat.add_right_comm, quotedChars, List.flatMap_cons, List.append_assoc,
      ← quotedChars]
    rcases quotedChar_cases quote c with ⟨hc, he⟩ | ⟨-, hc, he⟩ | he
    · rw [he, List.cons_append, List.cons_append, List.nil_append, unescape?, if_pos rfl,
        escape?_quote hq hc]
      exact hmap
    · rw [he, List.cons_append, List.nil_append, unescape?, if_neg hc]
      exact hmap
    · rw [he, List.cons_append, unescape?, if_pos rfl, List.cons_append, List.cons_append,
        List.append_assoc, List.singleton_append, escape?_numbered]
      exact hmap

/-- A text between quotes stands for itself, the quotes included. -/
theorem unescape?_between (hq : quote = '"' ∨ quote = '\'') {s written : List Char}
    (hwritten : written = quote :: (quotedChars quote s ++ [quote])) :
    unescape? written.length written = some (quote :: (s ++ [quote])) := by
  have hquote : quote ≠ '\\' := by rcases hq with rfl | rfl <;> decide
  obtain ⟨d, hd⟩ := Nat.exists_eq_add_of_le (length_le_quoted quote s)
  have hlength : written.length = s.length + (d + 1) + 1 := by
    rw [hwritten, List.length_cons, List.length_append, quotedChars, hd, List.length_singleton]
    omega
  have hlast : unescape? (d + 1) [quote] = some [quote] := by
    rw [unescape?, if_neg hquote, unescape?, Option.map_some]
  rw [hlength, hwritten, unescape?, if_neg hquote, unescape?_quoted hq, hlast]
  rfl

theorem unescape?_quoteText (s : String) :
    unescape? (quoteText s).toList.length (quoteText s).toList =
      some ('"' :: (s.toList ++ ['"'])) :=
  unescape?_between (.inl rfl) (quoteText_toList s)

theorem unescape?_quoteChar (c : Char) :
    unescape? (quoteChar c).toList.length (quoteChar c).toList = some ['\'', c, '\''] := by
  refine unescape?_between (s := [c]) (.inr rfl) ?_
  rw [quoteChar_toList, quotedChars, List.flatMap_singleton]

/-! ## Literals in a text -/

/-- **A literal is told from all others**, whatever follows them. -/
theorem injective_quoteText_append :
    Function.Injective fun p : String × List Char => (quoteText p.1).toList ++ p.2 := by
  rintro ⟨s, k⟩ ⟨t, l⟩ (h : (quoteText s).toList ++ k = (quoteText t).toList ++ l)
  obtain ⟨rfl, x, hs, ht⟩ := (finds_quoted s k).unique (h ▸ finds_quoted t l)
  rw [Option.some.inj (hs.symm.trans ht)]

/-- **Literals are read as what they were written for.** In front of whatever follows, a quoted text
is read up to its closing quote and no further, as the text, so no two texts are quoted alike and
none is closed early by a character of its own; a quoted character is read as the character. The
escapes of both, taken by themselves, stand for what was written. -/
theorem finds_literals :
    (∀ (s : String) (k : List Char),
      quoted.Finds ((quoteText s).toList ++ k) (fun x => x.1 = some s) k) ∧
    (∀ s : String, unescape? (quoteText s).toList.length (quoteText s).toList =
      some ('"' :: (s.toList ++ ['"']))) ∧
    (Function.Injective fun p : String × List Char => (quoteText p.1).toList ++ p.2) ∧
    (∀ (c : Char) (k : List Char),
      character.Finds ((quoteChar c).toList ++ k) (fun x => x.1 = some c) k) ∧
    ∀ c : Char,
      unescape? (quoteChar c).toList.length (quoteChar c).toList = some ['\'', c, '\''] :=
  ⟨finds_quoted, unescape?_quoteText, injective_quoteText_append, finds_character,
    unescape?_quoteChar⟩

end GrammarKit.Peg
