import GrammarKit.Proofs.Code.Identifier
import GrammarKit.Proofs.Notation.Spelling

/-!
# A text spells one row of lexemes

What stands at the front of a text tells its lexemes, but for two slashes, which are an empty regular
expression behind an equals sign and belong to a description elsewhere. So the row of lexemes that a
whole text spells is determined, and with it the header and the definitions.

* `Lexeme.Spells.unique`: a lexeme is determined, unless a line is taken for a regular expression.
* `IsOrdered`, `Spelled.unique`: rows in which regular expressions stand behind equals signs.
* `isOrdered_source`: the row of a header and definitions is one of them.
* **`source_inj`**: the row of a header and definitions tells them.
-/

namespace GrammarKit.Notation

open Text

/-- Two texts that go on at the first place of a separator are split there. -/
theorem append_cons_unique {α : Type} {c : α} {a b s t : List α} (ha : c ∉ a) (hb : c ∉ b)
    (h : a ++ c :: s = b ++ c :: t) : a = b ∧ s = t := by
  induction a generalizing b with
  | nil =>
    cases b with
    | nil => exact ⟨rfl, (List.cons.inj h).2⟩
    | cons d b => exact absurd ((List.cons.inj h).1 ▸ List.mem_cons_self) hb
  | cons d a ih =>
    cases b with
    | nil => exact absurd ((List.cons.inj h).1 ▸ List.mem_cons_self) ha
    | cons d' b =>
      obtain ⟨rfl, htail⟩ := List.cons.inj h
      obtain ⟨rfl, rfl⟩ := ih (fun hc => ha (List.mem_cons_of_mem _ hc))
        (fun hc => hb (List.mem_cons_of_mem _ hc)) htail
      exact ⟨rfl, rfl⟩

/-! ## Lexemes -/

section Lexemes

variable {cs cs' w w' t t' : List Char}

theorem shortEscape?_u : shortEscape? 'u' = none := rfl

/-- Digits between braces end at the closing brace. -/
theorem notMem_of_hex {digits : List Char} (h : ∀ c ∈ digits, (hexValue? c).isSome = true) :
    '\x7d' ∉ digits := fun hmem => Bool.noConfusion (h _ hmem)

/-- **A text between quotes** is determined. -/
theorem SpellsQuoted.unique (h : SpellsQuoted cs w) (h' : SpellsQuoted cs' w')
    (he : w ++ '"' :: t = w' ++ '"' :: t') : cs = cs' ∧ t = t' := by
  induction h generalizing cs' w' with
  | nil =>
    cases h' with
    | nil => exact ⟨rfl, (List.cons.inj he).2⟩
    | plain hquote => exact absurd (List.cons.inj he).1.symm hquote
    | short => cases (List.cons.inj he).1
    | number => cases (List.cons.inj he).1
  | plain hquote hslash _ ih =>
    cases h' with
    | nil => exact absurd (List.cons.inj he).1 hquote
    | plain _ _ h' =>
      obtain ⟨rfl, htail⟩ := List.cons.inj he
      obtain ⟨rfl, rfl⟩ := ih h' htail
      exact ⟨rfl, rfl⟩
    | short => exact absurd (List.cons.inj he).1 hslash
    | number => exact absurd (List.cons.inj he).1 hslash
  | short hshort _ ih =>
    cases h' with
    | nil => cases (List.cons.inj he).1
    | plain _ hslash => exact absurd (List.cons.inj he).1.symm hslash
    | short hshort' h' =>
      obtain ⟨rfl, htail⟩ := List.cons.inj (List.cons.inj he).2
      obtain ⟨rfl, rfl⟩ := ih h' htail
      exact ⟨by rw [Option.some.inj (hshort.symm.trans hshort')], rfl⟩
    | number =>
      rw [(List.cons.inj (List.cons.inj he).2).1, shortEscape?_u] at hshort
      cases hshort
  | number _ _ hhex hnamed _ ih =>
    cases h' with
    | nil => cases (List.cons.inj he).1
    | plain _ hslash => exact absurd (List.cons.inj he).1.symm hslash
    | short hshort' =>
      rw [← (List.cons.inj (List.cons.inj he).2).1, shortEscape?_u] at hshort'
      cases hshort'
    | number _ _ hhex' hnamed' h' =>
      simp only [List.cons_append, List.append_assoc, List.cons.injEq, true_and] at he
      obtain ⟨rfl, htail⟩ :=
        append_cons_unique (notMem_of_hex hhex) (notMem_of_hex hhex') he
      obtain ⟨rfl, rfl⟩ := ih h' htail
      exact ⟨by rw [Option.some.inj (hnamed.symm.trans hnamed')], rfl⟩

/-- **A regular expression between slashes** is determined. -/
theorem SpellsSlashed.unique (h : SpellsSlashed cs w) (h' : SpellsSlashed cs' w')
    (he : w ++ '/' :: t = w' ++ '/' :: t') : cs = cs' ∧ t = t' := by
  induction h generalizing cs' w' with
  | nil =>
    cases h' with
    | nil => exact ⟨rfl, (List.cons.inj he).2⟩
    | plain _ hslash => exact absurd (List.cons.inj he).1.symm hslash
    | slash => cases (List.cons.inj he).1
    | pair => cases (List.cons.inj he).1
  | plain _ hslash hback _ ih =>
    cases h' with
    | nil => exact absurd (List.cons.inj he).1 hslash
    | plain _ _ _ h' =>
      obtain ⟨rfl, htail⟩ := List.cons.inj he
      obtain ⟨rfl, rfl⟩ := ih h' htail
      exact ⟨rfl, rfl⟩
    | slash => exact absurd (List.cons.inj he).1 hback
    | pair => exact absurd (List.cons.inj he).1 hback
  | slash _ ih =>
    cases h' with
    | nil => cases (List.cons.inj he).1
    | plain _ _ hback => exact absurd (List.cons.inj he).1.symm hback
    | slash h' =>
      obtain ⟨rfl, rfl⟩ := ih h' (List.cons.inj (List.cons.inj he).2).2
      exact ⟨rfl, rfl⟩
    | pair hd => exact absurd (List.cons.inj (List.cons.inj he).2).1.symm hd
  | pair hd _ ih =>
    cases h' with
    | nil => cases (List.cons.inj he).1
    | plain _ _ hback => exact absurd (List.cons.inj he).1.symm hback
    | slash => exact absurd (List.cons.inj (List.cons.inj he).2).1 hd
    | pair _ h' =>
      obtain ⟨rfl, htail⟩ := List.cons.inj (List.cons.inj he).2
      obtain ⟨rfl, rfl⟩ := ih h' htail
      exact ⟨rfl, rfl⟩

/-- What the first character of a lexeme tells. -/
inductive Front where
  | word
  | quote
  | slash
  | sign
deriving DecidableEq

/-- What the first character of a text tells. -/
def frontOf : List Char → Front
  | [] => .sign
  | c :: _ =>
    if isIdentifierStart c then .word else if c = '"' then .quote
    else if c = '/' then .slash else .sign

/-- What the first character of a lexeme has to tell. -/
def Lexeme.front : Lexeme → Front
  | .word _ => .word
  | .sign _ => .sign
  | .quoted _ => .quote
  | .slashed _ | .line _ => .slash

/-- Whether a lexeme is a line of a description. -/
def Lexeme.isLine : Lexeme → Bool
  | .line _ => true
  | _ => false

variable {l l' : Lexeme} {s : List Char}

theorem Lexeme.Spells.frontOf_eq (h : l.Spells s t) : frontOf s = l.front := by
  cases h with
  | word hname =>
    obtain ⟨c, u, hc, hstart, -⟩ := exists_identifier hname
    rw [hc, List.cons_append, frontOf, if_pos hstart]
    rfl
  | sign x => cases x <;> rfl
  | quoted => rfl
  | slashed => rfl
  | line => rfl

theorem Lexeme.Spells.ne_nil (h : l.Spells s t) : s ≠ [] := by
  cases h with
  | word hname =>
    obtain ⟨c, u, hc, -⟩ := exists_identifier hname
    rw [hc]
    exact List.cons_ne_nil _ _
  | sign => exact List.cons_ne_nil _ _
  | quoted => exact List.cons_ne_nil _ _
  | slashed => exact List.cons_ne_nil _ _
  | line => exact List.cons_ne_nil _ _

theorem Lexeme.Spells.eq_word {name : String} (h : (Lexeme.word name).Spells s t) :
    name = String.ofList (s.takeWhile isIdentifierPart) ∧ t = s.dropWhile isIdentifierPart := by
  cases h with
  | word hname hend =>
    obtain ⟨c, u, hc, hstart, hpart⟩ := exists_identifier hname
    have hall : name.toList.all isIdentifierPart = true := by
      rw [hc, List.all_cons, Code.isIdentifierPart_of_start hstart, hpart]
      rfl
    obtain ⟨htake, hdrop⟩ := takeWhile_name hall hend
    exact ⟨by rw [htake, String.ofList_toList], hdrop.symm⟩

theorem Lexeme.Spells.exists_line {line : List Char} (h : (Lexeme.line line).Spells s t) :
    ∃ text u, s = '/' :: '/' :: '/' :: u ∧ restOfLine? u = some (text, t) ∧ line = docText text := by
  cases h with
  | line hfeed hreturn hend =>
    exact ⟨_, _, rfl, restOfLine?_of_endsLine hfeed hreturn hend, rfl⟩

theorem Lexeme.Spells.exists_quoted {text : String} (h : (Lexeme.quoted text).Spells s t) :
    ∃ w, SpellsQuoted text.toList w ∧ s = '"' :: (w ++ '"' :: t) := by
  cases h with
  | quoted _ hw => exact ⟨_, hw, rfl⟩

theorem Lexeme.Spells.exists_slashed {source : String} (h : (Lexeme.slashed source).Spells s t) :
    ∃ w, SpellsSlashed source.toList w ∧ s = '/' :: (w ++ '/' :: t) := by
  cases h with
  | slashed _ hw => exact ⟨_, hw, rfl⟩

theorem Lexeme.Spells.eq_sign {x : Sign} (h : (Lexeme.sign x).Spells s t) : s = x.char :: t := by
  cases h
  rfl

theorem Sign.char_inj {x y : Sign} (h : x.char = y.char) : x = y := by
  cases x <;> cases y <;> first | rfl | cases h

/-- **A lexeme is determined** by the text, once it is known whether it is a line. -/
theorem Lexeme.Spells.unique (h : l.Spells s t) (h' : l'.Spells s t') (hline : l.isLine = l'.isLine) :
    l = l' ∧ t = t' := by
  have hfront : l.front = l'.front := h.frontOf_eq.symm.trans h'.frontOf_eq
  cases l <;> cases l' <;> cases hfront <;> cases hline
  -- words
  · obtain ⟨rfl, rfl⟩ := h.eq_word
    obtain ⟨rfl, rfl⟩ := h'.eq_word
    exact ⟨rfl, rfl⟩
  -- signs
  · obtain ⟨hchar, rfl⟩ := List.cons.inj (h.eq_sign.symm.trans h'.eq_sign)
    exact ⟨by rw [Sign.char_inj hchar], rfl⟩
  -- texts between quotes
  · obtain ⟨w, hw, rfl⟩ := h.exists_quoted
    obtain ⟨w', hw', he⟩ := h'.exists_quoted
    obtain ⟨htext, rfl⟩ := hw.unique hw' (List.cons.inj he).2
    exact ⟨by rw [String.toList_inj.1 htext], rfl⟩
  -- regular expressions
  · obtain ⟨w, hw, rfl⟩ := h.exists_slashed
    obtain ⟨w', hw', he⟩ := h'.exists_slashed
    obtain ⟨hsource, rfl⟩ := hw.unique hw' (List.cons.inj he).2
    exact ⟨by rw [String.toList_inj.1 hsource], rfl⟩
  -- lines of descriptions
  · obtain ⟨text, u, rfl, hu, rfl⟩ := h.exists_line
    obtain ⟨text', u', he, hu', rfl⟩ := h'.exists_line
    cases he
    cases hu.symm.trans hu'
    exact ⟨rfl, rfl⟩

end Lexemes

/-! ## Rows -/

/-- **Where a lexeme may stand**: a regular expression behind an equals sign, and a line of a
description elsewhere. -/
def Lexeme.Follows (prev : Option Lexeme) : Lexeme → Prop
  | .slashed _ => prev = some (.sign .equals)
  | .line _ => prev ≠ some (.sign .equals)
  | _ => True

/-- Rows behind the lexeme `prev`, if any, in which every lexeme may stand where it does. -/
def IsOrdered : Option Lexeme → List Lexeme → Prop
  | _, [] => True
  | prev, l :: ls => l.Follows prev ∧ IsOrdered (some l) ls

/-- In one place, lexemes that start alike are both lines or neither of them. -/
theorem Lexeme.Follows.isLine_eq {prev : Option Lexeme} {l l' : Lexeme} (h : l.Follows prev)
    (h' : l'.Follows prev) (hfront : l.front = l'.front) : l.isLine = l'.isLine := by
  cases l <;> cases l' <;> cases hfront <;> first | rfl | exact absurd h h' | exact absurd h' h

/-- **The row of lexemes that a whole text spells** is determined. -/
theorem Spelled.unique {prev : Option Lexeme} {ls ls' : List Lexeme} {s t t' : List Char}
    (h : Spelled ls s t) (h' : Spelled ls' s t') (hend : Skips t []) (hend' : Skips t' [])
    (hls : IsOrdered prev ls) (hls' : IsOrdered prev ls') : ls = ls' := by
  -- where only blanks and comments are left, no lexeme stands
  have hnone {s s' u : List Char} {l : Lexeme} (hskip : Skips s []) (hall : SkipsAll s s')
      (hl : l.Spells s' u) : False := by
    have htrivia : trivia [] = [] := by rw [trivia]
    refine hl.ne_nil ?_
    rw [skipsAll_iff.1 hall, hskip.trivia_eq, htrivia]
  induction h generalizing prev ls' with
  | nil s =>
    cases h' with
    | nil => rfl
    | cons hall hl _ => exact (hnone hend hall hl).elim
  | cons hall hl _ ih =>
    cases h' with
    | nil => exact (hnone hend' hall hl).elim
    | cons hall' hl' hrest' =>
      obtain rfl := (skipsAll_iff.1 hall).trans (skipsAll_iff.1 hall').symm
      have hfront := hl.frontOf_eq.symm.trans hl'.frontOf_eq
      obtain ⟨rfl, rfl⟩ := hl.unique hl' (hls.1.isLine_eq hls'.1 hfront)
      rw [ih hrest' hend hls.2 hls'.2]

/-! ## Rows of models -/

section Models

variable {rest rest' : List Lexeme} {prev : Option Lexeme}

/-- Words and signs may stand everywhere. -/
theorem isOrdered_plain {ls : List Lexeme} (hls : ∀ l ∈ ls, ∀ prev, l.Follows prev)
    (hrest : ∀ prev, IsOrdered prev rest) : IsOrdered prev (ls ++ rest) := by
  induction ls generalizing prev with
  | nil => exact hrest prev
  | cons l ls ih =>
    obtain ⟨hl, hls⟩ := List.forall_mem_cons.1 hls
    exact ⟨hl prev, ih hls⟩

theorem isOrdered_body (b : Body) (hrest : ∀ prev, IsOrdered prev rest) :
    IsOrdered (some (.sign .equals)) (b.lexemes ++ rest) := by
  cases b with
  | token p =>
    cases p with
    | literal text => exact ⟨trivial, hrest _⟩
    | regex source => exact ⟨rfl, hrest _⟩
  | deduction elements =>
    refine isOrdered_plain (fun l hl prev => ?_) hrest
    obtain ⟨e, -, hl⟩ := List.mem_flatMap.1 hl
    rcases e with ⟨target, _ | property⟩ <;>
      simp only [Element.lexemes, List.mem_cons, List.not_mem_nil, or_false] at hl
    · rw [hl]
      trivial
    · rcases hl with rfl | rfl | rfl <;> trivial
  | union members =>
    refine isOrdered_plain (fun l hl prev => ?_) hrest
    cases members with
    | nil => cases hl
    | cons first members =>
      simp only [Body.lexemes, List.mem_cons, List.mem_flatMap, List.not_mem_nil, or_false] at hl
      rcases hl with rfl | ⟨x, -, rfl | rfl⟩ <;> trivial

theorem isOrdered_lines (lines : List (List Char)) (hprev : prev ≠ some (.sign .equals))
    (hrest : ∀ prev, prev ≠ some (.sign .equals) → IsOrdered prev rest) :
    IsOrdered prev (lines.map .line ++ rest) := by
  induction lines generalizing prev with
  | nil => exact hrest prev hprev
  | cons line lines ih => exact ⟨hprev, ih (by simp)⟩

theorem isOrdered_definitions (definitions : List (String × Node))
    (hprev : prev ≠ some (.sign .equals)) :
    IsOrdered prev (definitions.flatMap fun d => d.2.lexemes d.1) := by
  induction definitions generalizing prev with
  | nil => trivial
  | cons d definitions ih =>
    simp only [List.flatMap_cons, Node.lexemes, List.append_assoc, List.cons_append,
      List.nil_append]
    exact isOrdered_lines _ hprev fun _ _ =>
      ⟨trivial, trivial, trivial, isOrdered_body _ fun _ => ⟨trivial, ih (by simp)⟩⟩

/-- **The row of a header and definitions** is ordered. -/
theorem isOrdered_source (lines : List (List Char)) (head : Header)
    (definitions : List (String × Node)) :
    IsOrdered none (lines.map .line ++ head.lexemes ++
      definitions.flatMap fun d => d.2.lexemes d.1) := by
  rw [List.append_assoc]
  refine isOrdered_lines _ (by simp) fun _ _ => ?_
  have hdefinitions : IsOrdered (some (.sign .semicolon))
      (definitions.flatMap fun d => d.2.lexemes d.1) := isOrdered_definitions _ (by simp)
  obtain ⟨name, _ | version, start⟩ := head
  · exact ⟨trivial, trivial, trivial, trivial, trivial, hdefinitions⟩
  · exact ⟨trivial, trivial, trivial, trivial, trivial, trivial, trivial, hdefinitions⟩

/-! ## What rows tell -/

theorem lines_inj {lines lines' : List (List Char)} {w w' : String}
    (h : lines.map Lexeme.line ++ .word w :: rest = lines'.map Lexeme.line ++ .word w' :: rest') :
    lines = lines' ∧ w = w' ∧ rest = rest' := by
  induction lines generalizing lines' with
  | nil =>
    cases lines' with
    | nil =>
      cases h
      exact ⟨rfl, rfl, rfl⟩
    | cons line' lines' => cases (List.cons.inj h).1
  | cons line lines ih =>
    cases lines' with
    | nil => cases (List.cons.inj h).1
    | cons line' lines' =>
      obtain ⟨hline, htail⟩ := List.cons.inj h
      cases hline
      obtain ⟨rfl, rfl, rfl⟩ := ih htail
      exact ⟨rfl, rfl, rfl⟩

theorem descriptionLines_inj {d d' : Option String}
    (h : descriptionLines d = descriptionLines d') : d = d' := by
  cases d with
  | none =>
    cases d' with
    | none => rfl
    | some text => exact absurd h.symm (List.splitOn_ne_nil _ _)
  | some text =>
    cases d' with
    | none => exact absurd h (List.splitOn_ne_nil _ _)
    | some text' =>
      have hjoin (s : List Char) : ['\n'].intercalate (s.splitOn '\n') = s :=
        List.intercalate_splitOn '\n'
      have htext : text.toList = text'.toList := by
        rw [← hjoin text.toList, ← hjoin text'.toList]
        exact congrArg _ h
      rw [String.toList_inj.1 htext]

theorem flatMap_lexemes_ne_sign (elements : List Element) (c : Sign) :
    elements.flatMap Element.lexemes ≠ .sign c :: rest := by
  rcases elements with _ | ⟨⟨target, _ | property⟩, elements⟩ <;> intro h <;> cases h

theorem flatMap_lexemes_inj {elements elements' : List Element}
    (h : elements.flatMap Element.lexemes = elements'.flatMap Element.lexemes) :
    elements = elements' := by
  induction elements generalizing elements' with
  | nil =>
    rcases elements' with _ | ⟨⟨target, _ | property⟩, elements'⟩
    · rfl
    · cases h
    · cases h
  | cons e elements ih =>
    rcases e with ⟨target, _ | property⟩ <;>
      rcases elements' with _ | ⟨⟨target', _ | property'⟩, elements'⟩ <;>
      first | cases h | simp only [List.flatMap_cons, Element.lexemes, List.cons_append,
        List.nil_append, List.cons.injEq, Lexeme.word.injEq, true_and] at h
    · rw [h.1, ih h.2]
    · exact absurd h.2 (flatMap_lexemes_ne_sign _ _)
    · exact absurd h.2.symm (flatMap_lexemes_ne_sign _ _)
    · rw [h.1, h.2.1, ih h.2.2]

theorem flatMap_bar_inj {xs ys : List String}
    (h : (xs.flatMap fun x => [Lexeme.sign .bar, .word x]) =
      ys.flatMap fun x => [Lexeme.sign .bar, .word x]) : xs = ys := by
  induction xs generalizing ys with
  | nil =>
    cases ys with
    | nil => rfl
    | cons y ys => cases h
  | cons x xs ih =>
    cases ys with
    | nil => cases h
    | cons y ys =>
      simp only [List.flatMap_cons, List.cons_append, List.nil_append, List.cons.injEq,
        Lexeme.word.injEq, true_and] at h
      rw [h.1, ih h.2]

theorem word_inj {kind kind' : NodeKind} (h : kind.word = kind'.word) : kind = kind' := by
  cases kind <;> cases kind' <;> first | rfl | exact absurd h (by decide)

/-- **The lexemes of a body** tell it, once its kind is known. -/
theorem lexemes_inj {b b' : Body} (hkind : Node.kind { body := b } = Node.kind { body := b' })
    (h : b.lexemes = b'.lexemes) : b = b' := by
  cases b <;> cases b' <;> cases hkind
  · rename_i p p'
    rcases p with text | source <;> rcases p' with text' | source' <;> cases h <;> rfl
  · rw [flatMap_lexemes_inj h]
  · rename_i xs ys
    rcases xs with _ | ⟨x, xs⟩ <;> rcases ys with _ | ⟨y, ys⟩
    · rfl
    · cases h
    · cases h
    · obtain ⟨hfirst, hrest⟩ := List.cons.inj h
      cases hfirst
      rw [flatMap_bar_inj hrest]

theorem semicolon_notMem_lexemes (b : Body) : .sign .semicolon ∉ b.lexemes := by
  cases b with
  | token p => cases p <;> simp [Body.lexemes, Pattern.lexeme]
  | deduction elements =>
    simp only [Body.lexemes, List.mem_flatMap, not_exists, not_and]
    rintro ⟨target, _ | property⟩ - <;> simp [Element.lexemes]
  | union members => cases members <;> simp [Body.lexemes]

/-- **The lexemes of definitions** tell them. -/
theorem definitions_inj {definitions definitions' : List (String × Node)}
    (h : (definitions.flatMap fun d => d.2.lexemes d.1) =
      definitions'.flatMap fun d => d.2.lexemes d.1) : definitions = definitions' := by
  have hne (d : String × Node) (rest : List Lexeme) : d.2.lexemes d.1 ++ rest ≠ [] := by
    simp [Node.lexemes]
  induction definitions generalizing definitions' with
  | nil =>
    cases definitions' with
    | nil => rfl
    | cons d definitions' => exact absurd h.symm (hne d _)
  | cons d definitions ih =>
    cases definitions' with
    | nil => exact absurd h (hne d _)
    | cons d' definitions' =>
      obtain ⟨name, description, b⟩ := d
      obtain ⟨name', description', b'⟩ := d'
      simp only [List.flatMap_cons, Node.lexemes, List.append_assoc, List.cons_append,
        List.nil_append] at h
      obtain ⟨hlines, hword, hbehind⟩ := lines_inj h
      obtain ⟨hname, htail⟩ := List.cons.inj hbehind
      cases hname
      obtain ⟨hbody, hrest⟩ := append_cons_unique (semicolon_notMem_lexemes b)
        (semicolon_notMem_lexemes b') (List.cons.inj htail).2
      rw [lexemes_inj (word_inj hword) hbody, descriptionLines_inj hlines, ih hrest]

/-- **The row of a header and definitions** tells them. -/
theorem source_inj {lines lines' : List (List Char)} {head head' : Header}
    {definitions definitions' : List (String × Node)}
    (h : (lines.map .line ++ head.lexemes ++ definitions.flatMap fun d => d.2.lexemes d.1) =
      lines'.map .line ++ head'.lexemes ++ definitions'.flatMap fun d => d.2.lexemes d.1) :
    head = head' ∧ definitions = definitions' := by
  obtain ⟨name, version, start⟩ := head
  obtain ⟨name', version', start'⟩ := head'
  cases version <;> cases version' <;>
    simp only [Header.lexemes, Option.map_none, Option.map_some, Option.getD_none,
      Option.getD_some, List.append_assoc, List.cons_append, List.nil_append] at h <;>
    obtain ⟨-, -, hbehind⟩ := lines_inj h <;>
    simp only [List.cons.injEq, Lexeme.word.injEq, Lexeme.quoted.injEq, true_and] at hbehind
  · obtain ⟨rfl, rfl, hdefinitions⟩ := hbehind
    exact ⟨rfl, definitions_inj hdefinitions⟩
  · exact absurd hbehind.2.1 (by decide)
  · exact absurd hbehind.2.1 (by decide)
  · obtain ⟨rfl, rfl, rfl, hdefinitions⟩ := hbehind
    exact ⟨rfl, definitions_inj hdefinitions⟩

end Models

end GrammarKit.Notation
