import GrammarKit.Code.Lexer
import GrammarKit.Proofs.Text.Ascii
import Mathlib.Data.List.TakeWhile

/-!
# Names of nodes as identifiers of code

A name that a model may give to a node is a single word of code; it is an identifier unless it is
a key word.

* `EndsWord`: what a word may stand in front of.
* `leaf?_word`, `lexUpTo_word`: the word at the front.
* `lexUpTo_blank`, `lexUpTo_colon`: what stands between the words of a path.
* **`isIdentifier_of_isPlainWord`**, **`identToken?_isSome`**: names of nodes in code.
-/

namespace GrammarKit.Code

open Text

variable {c : Char} {s : List Char}

theorem isIdentifierPart_of_start (h : isIdentifierStart c = true) : isIdentifierPart c = true := by
  simp only [isIdentifierStart, isIdentifierPart, Char.isAlphanum, Bool.or_eq_true] at h ⊢
  exact h.imp .inl id

theorem ne_of_isIdentifierPart {d : Char} (h : isIdentifierPart c = true)
    (hd : isIdentifierPart d = false) : c ≠ d := by
  rintro rfl
  exact Bool.false_ne_true (hd.symm.trans h)

theorem isCodeBlank_of_isIdentifierPart (h : isIdentifierPart c = true) :
    isCodeBlank c = false := by
  have hc := bounds_of_isIdentifierPart h
  simp only [isCodeBlank, isWhiteSpace_of_isIdentifierPart h, Bool.false_or, Bool.or_eq_false_iff,
    beq_eq_false_iff_ne]
  omega

/-- A text without a mark or a quote in front is no raw literal. -/
theorem afterRawStart?_of_head {t : List Char} (ht : ∀ d ∈ t.head?, d ≠ '#' ∧ d ≠ '"')
    (kind : LiteralKind) : afterRawStart? kind t = none := by
  cases t with
  | nil => rfl
  | cons d t =>
    obtain ⟨hmark, hquote⟩ := ht d rfl
    simp [afterRawStart?, hmark, hquote]

theorem isDigit_of_isIdentifierStart (h : isIdentifierStart c = true) : c.isDigit = false := by
  simp only [isIdentifierStart, Bool.or_eq_true, beq_iff_eq] at h
  by_contra hd
  have hd := bounds_of_isDigit (Bool.not_eq_false _ ▸ hd)
  rcases h with h | rfl
  · have := bounds_of_isAlpha h
    omega
  · exact absurd hd (by decide)

theorem afterFloatDigits?_word (hc : isIdentifierStart c = true) :
    afterFloatDigits? (c :: s) = none := by
  rw [afterFloatDigits?, isDigit_of_isIdentifierStart hc]
  rfl

/-- A letter is no digit and no underscore. -/
theorem letter_ascii (h : c.isAlpha = true) :
    (hexValue? c).any (decide <| · < 10) = false ∧ (c == '_') = false := by
  have hbounds := bounds_of_isAlpha h
  exact forall_ascii (P := fun c => c.isAlpha = true →
    (hexValue? c).any (decide <| · < 10) = false ∧ (c == '_') = false)
    (by decide +kernel) (by omega) h

/-- A word has no digits in front, and underscores alone are no number. -/
theorem afterDigits?_word (hc : isIdentifierStart c = true) : afterDigits? (c :: s) = none := by
  have hdigit := isDigit_of_isIdentifierStart hc
  have hzero : c ≠ '0' := by
    rintro rfl
    exact absurd hdigit (by decide)
  rw [afterDigits?.eq_def]
  dsimp only
  split
  · exact absurd (List.cons.inj ‹_›).1 hzero
  · exact absurd (List.cons.inj ‹_›).1 hzero
  · exact absurd (List.cons.inj ‹_›).1 hzero
  · simp only [isIdentifierStart, Bool.or_eq_true, beq_iff_eq] at hc
    rcases hc with hc | rfl
    · simp [hdigit, letter_ascii hc]
    · simp

theorem startsWithSign_word (hc : isIdentifierStart c = true) :
    startsWithSign (c :: s) = false := by
  have hsigns : ∀ d ∈ signs, isIdentifierPart d = false := by decide
  have hc' : c ∉ signs := fun h =>
    Bool.false_ne_true ((hsigns c h).symm.trans (isIdentifierPart_of_start hc))
  rw [startsWithSign.eq_def]
  split
  all_goals simp_all

theorem signOrLifetime?_word (hc : isIdentifierStart c = true) :
    signOrLifetime? (c :: s) = none := by
  have hquote : c ≠ '\'' := ne_of_isIdentifierPart (isIdentifierPart_of_start hc) (by decide)
  rw [signOrLifetime?.eq_def]
  split
  · simp_all
  · rename_i heq
    rw [startsWithSign_word hc]
    rfl
  · rfl

/-- A lexeme behind blanks and comments, groups aside. -/
theorem lexUpTo_leaf {t : List Char} (hskip : skipTrivia t.length t = c :: s)
    (hdoc : docComment? (c :: s) = none) (hopen : opens? c = none) (hclose : closes? c = none)
    (close : Option Delimiter) (n : Nat) : lexUpTo close (n + 1) t =
      (leaf? (c :: s)).bind fun x =>
        (lexUpTo close n x.2).map fun more => (x.1 :: more.1, more.2) := by
  rw [lexUpTo, hskip]
  simp only [hdoc, hopen, hclose, ite_self, Option.bind_eq_bind]
  refine congrArg (Option.bind _) (funext fun x => ?_)
  cases lexUpTo close n x.2 <;> rfl

/-! ## In front of a word -/

section Front

variable (hc : isIdentifierPart c = true)

include hc

theorem comment?_word : comment? (c :: s) = none := by
  have hslash : c ≠ '/' := ne_of_isIdentifierPart hc (by decide)
  rw [comment?.eq_def]
  split
  all_goals first | rfl | simp_all

theorem skipTrivia_word (n : Nat) : skipTrivia n (c :: s) = c :: s := by
  cases n with
  | zero => rfl
  | succ n =>
    rw [skipTrivia, isCodeBlank_of_isIdentifierPart hc,
      comment?_word hc]
    rfl

theorem docComment?_word : docComment? (c :: s) = none := by
  have hslash : c ≠ '/' := ne_of_isIdentifierPart hc (by decide)
  rw [docComment?]
  · rfl
  all_goals
    intro t heq
    exact hslash (List.cons.inj heq).1

theorem opens?_word : opens? c = none := by
  rw [opens?.eq_def]
  split
  all_goals first | rfl | exact absurd hc (by decide)

theorem closes?_word : closes? c = none := by
  rw [closes?.eq_def]
  split
  all_goals first | rfl | exact absurd hc (by decide)

/-- The lexeme at the front of a text that starts like a word. -/
theorem lexUpTo_part (close : Option Delimiter) (n : Nat) : lexUpTo close (n + 1) (c :: s) =
    (leaf? (c :: s)).bind fun x =>
      (lexUpTo close n x.2).map fun more => (x.1 :: more.1, more.2) :=
  lexUpTo_leaf (skipTrivia_word hc _) (docComment?_word hc) (opens?_word hc)
    (closes?_word hc) close n

end Front

/-! ## Words -/

/-- **A text that a word may end in front of**: nothing, a blank, or the sign between the words of a
path. -/
def EndsWord (rest : List Char) : Prop := ∀ d ∈ rest.head?, d = ' ' ∨ d = ':'

theorem endsWord_nil : EndsWord [] := by
  simp [EndsWord]

theorem EndsWord.head (h : EndsWord (c :: s)) : c = ' ' ∨ c = ':' := h c rfl

theorem notName_of_endsWord (h : c = ' ' ∨ c = ':') :
    isNameStart c = false ∧ isNamePart c = false := by
  refine notName_of_pattern (by rcases h with rfl | rfl <;> decide) ?_
  rw [LowTables.patternSyntax lowTables, LowTables.patternWhiteSpace lowTables]
  rcases h with rfl | rfl <;> decide

theorem isCodeBlank_of_endsWord (h : c = ' ' ∨ c = ':') : isCodeBlank c = (c == ' ') := by
  rw [isCodeBlank, isWhiteSpace, ← member_low (by rcases h with rfl | rfl <;> decide),
    LowTables.whiteSpace lowTables]
  rcases h with rfl | rfl <;> decide

section Word

variable (hc : isIdentifierStart c = true) (hs : s.all isIdentifierPart = true)

include hc hs in
theorem all_word : ∀ d ∈ c :: s, isIdentifierPart d = true := by
  intro d hd
  rcases List.mem_cons.1 hd with rfl | hd
  · exact isIdentifierPart_of_start hc
  · exact List.all_eq_true.1 hs d hd

variable {rest : List Char} (hrest : EndsWord rest)

include hs hrest

/-- Behind the first letter of a word stands no mark and no quote. -/
theorem head_word : ∀ d ∈ (s ++ rest).head?, d ≠ '#' ∧ d ≠ '"' ∧ d ≠ '\'' := by
  intro d hd
  cases s with
  | nil =>
    rcases hrest d hd with rfl | rfl
    · decide
    · decide
  | cons e s =>
    obtain rfl : e = d := Option.some.inj hd
    have hpart := List.all_eq_true.1 hs e List.mem_cons_self
    exact ⟨ne_of_isIdentifierPart hpart (by decide), ne_of_isIdentifierPart hpart (by decide),
      ne_of_isIdentifierPart hpart (by decide)⟩

/-- Nor does one stand behind the second letter. -/
theorem tail_word {d : Char} {t : List Char} (h : s ++ rest = d :: t)
    (hd : isIdentifierPart d = true) : ∀ e ∈ t.head?, e ≠ '#' ∧ e ≠ '"' := by
  cases s with
  | nil =>
    obtain rfl : rest = d :: t := h
    rcases hrest.head with rfl | rfl
    · cases hd
    · cases hd
  | cons a s =>
    obtain ⟨-, rfl⟩ := List.cons.inj h
    rw [List.all_cons, Bool.and_eq_true] at hs
    exact fun e he => ⟨(head_word hs.2 hrest e he).1, (head_word hs.2 hrest e he).2.1⟩

include hc

theorem afterIdent?_word : afterIdent? (c :: (s ++ rest)) = some rest := by
  have hstart : startsIdent c = true := by
    simp only [isIdentifierStart, Bool.or_eq_true] at hc
    rw [startsIdent, Bool.or_eq_true]
    exact hc.symm.imp id isNameStart_of_isAlpha
  have hdrop : (s ++ rest).dropWhile isNamePart = rest := by
    rw [List.dropWhile_append_of_pos
      fun d hd => isNamePart_of_isIdentifierPart (List.all_eq_true.1 hs d hd)]
    cases rest with
    | nil => rfl
    | cons d t => rw [List.dropWhile_cons_of_neg (by simp [notName_of_endsWord hrest.head])]
  rw [afterIdent?, if_pos hstart, hdrop]

theorem afterAnyIdent?_word : afterAnyIdent? (c :: (s ++ rest)) = some rest := by
  rw [afterAnyIdent?.eq_def]
  split
  · rename_i t heq
    exact absurd rfl (head_word hs hrest '#' (by simp [(List.cons.inj heq).2])).1
  · exact afterIdent?_word hc hs hrest

/-- A name starts no literal. -/
theorem afterLiteral?_word : afterLiteral? (c :: (s ++ rest)) = none := by
  have hstart {d : Char} (hd : isIdentifierPart d = false) (t : List Char) :
      c :: (s ++ rest) ≠ d :: t := fun he =>
    ne_of_isIdentifierPart (isIdentifierPart_of_start hc) hd (List.cons.inj he).1
  have hhead := head_word hs hrest
  generalize hw : c :: (s ++ rest) = w at hstart
  rw [afterLiteral?.eq_def]
  split
  · exact absurd rfl (hstart (by decide) _)
  · rw [(List.cons.inj hw).2] at hhead
    exact absurd rfl (hhead _ rfl).2.1
  · rw [(List.cons.inj hw).2] at hhead
    exact absurd rfl (hhead _ rfl).2.1
  · exact afterRawStart?_of_head (tail_word hs hrest (List.cons.inj hw).2 (by decide)) _
  · exact afterRawStart?_of_head (tail_word hs hrest (List.cons.inj hw).2 (by decide)) _
  · rw [← (List.cons.inj hw).2]
    exact afterRawStart?_of_head (fun d hd => ⟨(hhead d hd).1, (hhead d hd).2.1⟩) _
  · rw [(List.cons.inj hw).2] at hhead
    exact absurd rfl (hhead _ rfl).2.2
  · exact absurd rfl (hstart (by decide) _)
  · exact absurd rfl (hstart (by decide) _)
  · rw [← hw, afterFloatDigits?_word hc, afterDigits?_word hc]
    rfl

theorem literalStarts_word :
    (literalStarts.any fun w => w.isPrefixOf (c :: (s ++ rest))) = false := by
  have hmarks : ∀ w ∈ literalStarts, (∃ d ∈ w, isIdentifierPart d = false) ∧ ' ' ∉ w ∧ ':' ∉ w := by
    decide
  rw [List.any_eq_false]
  intro w hw hpre
  obtain ⟨⟨d, hd, hmark⟩, hblank, hcolon⟩ := hmarks w hw
  have hparts {v : List Char} (hv : v <+: c :: s) (hdv : d ∈ v) : False :=
    Bool.false_ne_true (hmark.symm.trans (all_word hc hs d (hv.subset hdv)))
  rcases List.prefix_or_prefix_of_prefix (List.isPrefixOf_iff_prefix.1 hpre)
    (List.prefix_append (c :: s) rest) with hfront | ⟨t, rfl⟩
  · exact hparts hfront hd
  · cases t with
    | nil => exact hparts (by simp) hd
    | cons e t =>
      have hpre : c :: s ++ e :: t <+: c :: s ++ rest := List.isPrefixOf_iff_prefix.1 hpre
      obtain ⟨u, rfl⟩ := (List.prefix_append_right_inj _).1 hpre
      rcases hrest.head with rfl | rfl
      · exact hblank (by simp)
      · exact hcolon (by simp)

/-- A name is the word at its front. -/
theorem leaf?_word : leaf? (c :: (s ++ rest)) = some (.word (String.ofList (c :: s)), rest) := by
  have hfront : front (c :: (s ++ rest)) rest = String.ofList (c :: s) := by
    rw [front, ← List.cons_append, List.length_append, Nat.add_sub_cancel, List.take_left]
  rw [leaf?, afterLiteral?_word hc hs hrest, signOrLifetime?_word hc,
    literalStarts_word hc hs hrest, afterAnyIdent?_word hc hs hrest, ← hfront]
  rfl

theorem lexUpTo_word (n : Nat) :
    lexUpTo none (n + 1) (c :: (s ++ rest)) =
      (lexUpTo none n rest).map fun r => (.word (String.ofList (c :: s)) :: r.1, r.2) := by
  rw [lexUpTo_part (isIdentifierPart_of_start hc), leaf?_word hc hs hrest]
  rfl

omit hrest in
/-- The last word of a text. -/
theorem lexUpTo_lastWord (n : Nat) :
    lexUpTo none (n + 2) (c :: s) = some ([.word (String.ofList (c :: s))], []) := by
  have hlex := lexUpTo_word hc hs endsWord_nil (n + 1)
  rwa [List.append_nil] at hlex

end Word

theorem lexUpTo_blank (n : Nat) : lexUpTo none n (' ' :: s) = lexUpTo none n s := by
  cases n with
  | zero => rfl
  | succ n =>
    have hblank : isCodeBlank ' ' = true := isCodeBlank_of_endsWord (.inl rfl)
    have hskip : skipTrivia (' ' :: s).length (' ' :: s) = skipTrivia s.length s := by
      rw [List.length_cons, skipTrivia, if_pos hblank]
    rw [lexUpTo, hskip, lexUpTo]

theorem lexUpTo_colon (n : Nat) : lexUpTo none (n + 1) (':' :: s) =
    (lexUpTo none n s).map fun r => (.sign ':' (startsWithSign s) :: r.1, r.2) := by
  have hblank : isCodeBlank ':' = false := isCodeBlank_of_endsWord (.inr rfl)
  have hskip : skipTrivia (':' :: s).length (':' :: s) = ':' :: s := by
    rw [List.length_cons, skipTrivia, hblank]
    rfl
  rw [lexUpTo_leaf hskip rfl rfl rfl]
  rfl

/-- The lexemes of a text that starts with an ASCII word. -/
theorem lex?_eq_of_toList {name : String} (hname : name.toList = c :: s)
    (hc : isIdentifierPart c = true) :
    lex? name = (lexUpTo none (s.length + 2) (c :: s)).map Prod.fst := by
  have hbounds := bounds_of_isIdentifierPart hc
  rw [lex?, hname]
  simp only
  rw [if_neg (by omega), List.length_cons]

theorem lex?_of_isIdentifier {name : String} (h : GrammarKit.isIdentifier name = true) :
    lex? name = some [.word name] := by
  rw [GrammarKit.isIdentifier] at h
  split at h
  · cases h
  · rename_i c s hname
    rw [Bool.and_eq_true] at h
    rw [lex?_eq_of_toList hname (isIdentifierPart_of_start h.1), lexUpTo_lastWord h.1 h.2, ← hname,
      String.ofList_toList]
    rfl

/-- **Names of nodes are identifiers of code**, key words apart. -/
theorem isIdentifier_of_isPlainWord {name : String} (h : GrammarKit.isIdentifier name = true)
    (hword : isPlainWord name = true) : isIdentifier name = true := by
  rw [isIdentifier, lex?_of_isIdentifier h]
  exact hword

/-- A blank in front of a name does not matter to code. -/
theorem isIdentifier_blank {name : String} (h : GrammarKit.isIdentifier name = true)
    (hword : isPlainWord name = true) : isIdentifier (" " ++ name) = true := by
  rw [GrammarKit.isIdentifier] at h
  split at h
  · cases h
  · rename_i c s hname
    rw [Bool.and_eq_true] at h
    have hblank : (" " ++ name).toList = ' ' :: c :: s := by
      rw [String.toList_append, hname]
      rfl
    have hlex : lex? (" " ++ name) = some [.word name] := by
      rw [lex?, hblank]
      simp only
      rw [if_neg (by decide), lexUpTo_blank, List.length_cons, List.length_cons,
        lexUpTo_lastWord h.1 h.2, ← hname, String.ofList_toList]
      rfl
    rw [isIdentifier, hlex]
    exact hword

/-- **Names of nodes are tokens of code.** -/
theorem identToken?_isSome {name : String} (h : GrammarKit.isIdentifier name = true) :
    (identToken? name).isSome = true := by
  rw [GrammarKit.isIdentifier] at h
  split at h
  · cases h
  · rename_i c s hname
    rw [Bool.and_eq_true] at h
    have hrest := afterAnyIdent?_word h.1 h.2 endsWord_nil
    rw [List.append_nil] at hrest
    rw [identToken?, hname, hrest]
    rfl

end GrammarKit.Code
