import GrammarKit.Code.TypePath
import GrammarKit.Proofs.Code.Identifier

/-!
# Names of types as paths

A name that is an identifier, with nothing around it, is a path of one token.

* `leaf?_eq_word`: a word is an identifier.
* **`typeTokens_of_isIdentifier`**, `typeTokens_of_isPlainWord`: the tokens of a type's name.
* `typePath?_crate`: blanks in a path do not matter.
-/

namespace GrammarKit.Code

open Text

variable {name w : String} {c : Char} {s rest : List Char}

theorem signOrLifetime?_ne_word : signOrLifetime? s ≠ some (.word w, rest) := by
  unfold signOrLifetime?
  split
  · intro h
    obtain ⟨r, -, hr⟩ := Option.bind_eq_some_iff.1 h
    split at hr <;> simp at hr
  · split <;> simp
  · simp

/-- A word is an identifier. -/
theorem leaf?_eq_word (h : leaf? s = some (.word w, rest)) :
    afterAnyIdent? s = some rest ∧ w = front s rest := by
  unfold leaf? at h
  split at h
  · simp at h
  · split at h
    · rename_i r hsign
      exact absurd (hsign.trans h) signOrLifetime?_ne_word
    · split at h
      · cases h
      · obtain ⟨r, hr, he⟩ := Option.map_eq_some_iff.1 h
        obtain ⟨hw, rfl⟩ := Prod.mk.inj he
        exact ⟨hr, (Lexeme.word.inj hw).symm⟩

theorem front_nil : front s [] = String.ofList s := by
  simp [front]

theorem isIdentifier_iff :
    isIdentifier name = true ↔ ∃ w, lex? name = some [.word w] ∧ isPlainWord w = true := by
  unfold isIdentifier
  split
  · rename_i w hw
    simp [hw]
  · rename_i hne
    simp only [Bool.false_eq_true, false_iff]
    rintro ⟨w, hw, -⟩
    exact hne w hw

theorem ne_empty_of_isIdentifier (h : isIdentifier name = true) : name ≠ "" := by
  rintro rfl
  obtain ⟨w, hw, -⟩ := isIdentifier_iff.1 h
  cases hw

/-- The lexemes of a text that starts with an ASCII word are what stands at its front, and more. -/
theorem exists_leaf?_of_lexUpTo {n : Nat} {xs : List Lexeme} (hc : isIdentifierPart c = true)
    (h : lexUpTo none (n + 1) (c :: s) = some (xs, rest)) :
    ∃ x more t, leaf? (c :: s) = some (x, t) ∧ xs = x :: more := by
  rw [lexUpTo_part hc] at h
  obtain ⟨⟨x, t⟩, hleaf, h⟩ := Option.bind_eq_some_iff.1 h
  obtain ⟨⟨more, t'⟩, -, h⟩ := Option.map_eq_some_iff.1 h
  exact ⟨x, more, t, hleaf, (Prod.mk.inj h).1.symm⟩

/-- **An identifier that starts with an ASCII word** is that word, with blanks and comments behind
it. -/
theorem exists_word (hname : name.toList = c :: s) (hc : isIdentifierPart c = true)
    (hident : isIdentifier name = true) :
    ∃ w t, lex? name = some [.word w] ∧ isPlainWord w = true ∧ afterAnyIdent? (c :: s) = some t ∧
      w = front (c :: s) t := by
  obtain ⟨w, hlex, hword⟩ := isIdentifier_iff.1 hident
  have hrun := hlex
  rw [lex?_eq_of_toList hname hc] at hrun
  obtain ⟨⟨xs, t⟩, hrun, rfl⟩ := Option.map_eq_some_iff.1 hrun
  obtain ⟨x, more, t, hleaf, hxs⟩ := exists_leaf?_of_lexUpTo hc hrun
  obtain ⟨rfl, -⟩ := List.cons.inj hxs
  obtain ⟨hrest, hw⟩ := leaf?_eq_word hleaf
  exact ⟨w, t, hlex, hword, hrest, hw⟩

theorem identToken?_isSome_iff :
    (identToken? name).isSome = true ↔ afterAnyIdent? name.toList = some [] := by
  unfold identToken?
  split
  · simp [*]
  · rename_i hne
    simp only [Option.isSome_none, Bool.false_eq_true, false_iff]
    exact hne

/-- **A name that starts with an ASCII word** is one lexeme if it is an identifier and a token. -/
theorem lex?_of_identToken? (hname : name.toList = c :: s) (hc : isIdentifierPart c = true)
    (hident : isIdentifier name = true) (htoken : (identToken? name).isSome = true) :
    lex? name = some [.word name] ∧ isPlainWord name = true := by
  obtain ⟨w, t, hlex, hword, hrest, hw⟩ := exists_word hname hc hident
  have hwhole : afterAnyIdent? (c :: s) = some [] := hname ▸ identToken?_isSome_iff.1 htoken
  obtain rfl : [] = t := Option.some.inj (hwhole.symm.trans hrest)
  have hwname : w = name := by rw [hw, front_nil, ← hname, String.ofList_toList]
  rw [← hwname]
  exact ⟨hwname ▸ hlex, hword⟩

/-- A text that starts with the word of the crate. -/
theorem lex?_crate_append {text : String} {xs : List Lexeme}
    (htext : text.toList = "crate".toList ++ rest) (hrest : EndsWord rest)
    (hrun : ∀ n, lexUpTo none (n + 4) rest = some (xs, [])) :
    lex? text = some (.word "crate" :: xs) := by
  have hword : text.toList = 'c' :: ("rate".toList ++ rest) := htext
  have hlength : ("rate".toList ++ rest).length + 1 = rest.length + 1 + 4 := by
    rw [List.length_append, show "rate".toList.length = 4 from rfl]
    omega
  rw [lex?_eq_of_toList hword (by decide), lexUpTo_word (by decide) (by decide) hrest, hlength,
    hrun]
  rfl

/-- **A path in the crate** may have blanks around the sign between its words. -/
theorem lex?_crate (h : GrammarKit.isIdentifier name = true) :
    lex? ("crate::" ++ name) =
        some [.word "crate", .sign ':' true, .sign ':' false, .word name] ∧
      lex? ("crate :: " ++ name) =
        some [.word "crate", .sign ':' true, .sign ':' false, .word name] := by
  rw [GrammarKit.isIdentifier] at h
  split at h
  · cases h
  · rename_i c s hname
    rw [Bool.and_eq_true] at h
    constructor
    · have hrest : EndsWord (':' :: ':' :: c :: s) := by simp [EndsWord]
      refine lex?_crate_append ?_ hrest fun n => ?_
      · rw [String.toList_append, hname]
        rfl
      · rw [lexUpTo_colon, lexUpTo_colon, lexUpTo_lastWord h.1 h.2, startsWithSign_word h.1,
          ← hname, String.ofList_toList]
        rfl
    · have hrest : EndsWord (' ' :: ':' :: ':' :: ' ' :: c :: s) := by simp [EndsWord]
      refine lex?_crate_append ?_ hrest fun n => ?_
      · rw [String.toList_append, hname]
        rfl
      · rw [lexUpTo_blank, lexUpTo_colon, lexUpTo_colon, lexUpTo_blank, lexUpTo_lastWord h.1 h.2,
          ← hname, String.ofList_toList]
        rfl

/-! ## Paths of one word and of two -/

namespace Reader

theorem startsWithWord_eq_false {ws : List String} (hword : isPlainWord w = true)
    (hws : ∀ v ∈ ws, isPlainWord v = false) : startsWithWord ws [.word w] = false := by
  rw [startsWithWord, ← Bool.not_eq_true, List.contains_iff_mem]
  intro hmem
  rw [hws w hmem] at hword
  cases hword

/-- A plain word is a segment without arguments. -/
theorem segment_word (inner : Phrase → Reader Reading) (hword : isPlainWord w = true) :
    (segment inner .type).run [.word w] = some ([.unit w], []) := by
  have hkey : startsWithWord ["super", "self", "crate", "try"] [.word w] = false :=
    startsWithWord_eq_false hword (by decide)
  have hself : startsWithWord ["Self"] [.word w] = false :=
    startsWithWord_eq_false hword (by decide)
  have hend : startsWithArguments .type [] = false := rfl
  simp [segment, hkey, hself, ident, startsWithIdent, hword, anyWord, whenever, hend]

/-- A plain word is a path of one segment. -/
theorem path_word (inner : Phrase → Reader Reading) (hword : isPlainWord w = true) :
    (path inner .type).run [.word w] = some (⟨[.unit w], .segment⟩, []) := by
  have hcolons : startsWith "::" [.word w] = false := rfl
  simp [path, signIfAny, whenever, hcolons, segment_word inner hword, many, repeatUpTo]

end Reader

namespace Reader

/-- A path in the crate of two words. -/
theorem path_crate (inner : Phrase → Reader Reading) (hword : isPlainWord w = true) :
    (path inner .type).run [.word "crate", .sign ':' true, .sign ':' false, .word w] =
      some (⟨[.unit "crate", .unit "::", .unit w], .path⟩, []) := by
  have hcolons :
      startsWith "::" [.word "crate", .sign ':' true, .sign ':' false, .word w] = false := rfl
  have hfirst : (segment inner .type).run
      [.word "crate", .sign ':' true, .sign ':' false, .word w] =
      some ([.unit "crate"], [.sign ':' true, .sign ':' false, .word w]) := by
    simp [segment, startsWithWord, anyWord]
  have hnext : startsWithSegment [.sign ':' true, .sign ':' false, .word w] = true := rfl
  have hsign : (sign "::").run [.sign ':' true, .sign ':' false, .word w] =
      some ([.unit "::"], [.word w]) := rfl
  have hend : startsWithSegment [] = false := rfl
  simp [path, signIfAny, whenever, hcolons, hfirst, many, repeatUpTo, hnext, inOrder, hsign,
    segment_word inner hword, hend]

end Reader

/-- **Blanks in a path** do not matter. -/
theorem typePath?_crate (h : GrammarKit.isIdentifier name = true)
    (hword : isPlainWord name = true) :
    typePath? ("crate::" ++ name) = some [.unit "crate", .unit "::", .unit name] ∧
      typePath? ("crate :: " ++ name) = some [.unit "crate", .unit "::", .unit name] := by
  obtain ⟨hclose, hwide⟩ := lex?_crate h
  simp only [typePath?, hclose, hwide, Option.bind_eq_bind, Option.bind_some]
  unfold Reader.whole? Reader.tokensOf
  simp [Reader.path_crate _ hword]

/-- **The tokens of a type's name.** -/
theorem typeTokens_of_isIdentifier (hname : name.toList = c :: s)
    (hc : isIdentifierPart c = true) (hident : isIdentifier name = true)
    (htoken : (identToken? name).isSome = true) : typeTokens name = [.unit name] := by
  obtain ⟨hlex, hword⟩ := lex?_of_identToken? hname hc hident htoken
  have hpath : typePath? name = some [.unit name] := by
    simp only [typePath?, hlex, Option.bind_eq_bind, Option.bind_some]
    unfold Reader.whole? Reader.tokensOf
    simp [Reader.path_word _ hword]
  rw [typeTokens, hpath, Option.getD_some]

/-- An ASCII word other than a keyword is a type by itself. -/
theorem typeTokens_of_isPlainWord (h : GrammarKit.isIdentifier name = true)
    (hword : isPlainWord name = true) : typeTokens name = [.unit name] := by
  have hident := isIdentifier_of_isPlainWord h hword
  have htoken := identToken?_isSome h
  rw [GrammarKit.isIdentifier] at h
  split at h
  · cases h
  · rename_i c s hname
    rw [Bool.and_eq_true] at h
    exact typeTokens_of_isIdentifier hname (isIdentifierPart_of_start h.1) hident htoken

end GrammarKit.Code
