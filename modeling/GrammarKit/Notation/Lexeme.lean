import GrammarKit.Notation.Failure
import GrammarKit.Text.Classes
import GrammarKit.Model.Validation

/-!
# Words of the model notation

* `trivia`: blanks and comments, which may stand between any two words.
* `word`, `keyword`, `sign`: names, key words and single characters.
* `quoted`, `slashed`: texts between quotes and regular expressions between slashes.
* `docLines`: the lines of a description.
-/

namespace GrammarKit.Notation

open Text

/-! ## Blanks, comments and descriptions -/

/-- The rest of a line and the text from the line's end on. A carriage return that does not
belong to a line's end spoils the line. -/
def restOfLine? : List Char → Option (List Char × List Char)
  | [] => some ([], [])
  | c :: s =>
    if c = '\n' then some ([], c :: s)
    else if c = '\r' then
      match s with
      | '\n' :: _ => some ([], c :: s)
      | _ => none
    else (restOfLine? s).map fun (line, s) => (c :: line, s)

theorem length_restOfLine? {s line rest : List Char} (h : restOfLine? s = some (line, rest)) :
    rest.length ≤ s.length := by
  induction s generalizing line rest with
  | nil => simp_all [restOfLine?]
  | cons c s ih =>
    rw [restOfLine?.eq_def] at h
    simp only at h
    split at h
    · cases h; simp
    · split at h
      · split at h
        · cases h; simp
        · cases h
      · simp only [Option.map_eq_some_iff, Prod.mk.injEq, Prod.exists] at h
        obtain ⟨l, r, hl, -, rfl⟩ := h
        exact Nat.le_succ_of_le (ih hl)

/-- The text behind the blanks and comments at its front. A comment starts with two slashes and
ends with its line; three slashes start a description, which stays. -/
def trivia (s : List Char) : List Char :=
  match s with
  | [] => []
  | c :: r =>
    if isBlank c then trivia r
    else match c, r with
      | '/', '/' :: t =>
        if t.head? = some '/' then s
        else match _ : restOfLine? t with
          | some (_, rest) => trivia rest
          | none => s
      | _, _ => s
termination_by s.length
decreasing_by
  · simp
  · rename_i h
    have := length_restOfLine? h
    simp only [List.length_cons]
    omega

/-- The lines of a description, with the text behind them. Blanks may stand around each line. -/
def docLines : Nat → List Char → List (List Char) × List Char
  | 0, s => ([], s)
  | n + 1, s =>
    match s.dropWhile isBlank with
    | '/' :: '/' :: '/' :: t =>
      match restOfLine? t with
      | some (line, rest) =>
        let (lines, rest) := docLines n (rest.dropWhile isBlank)
        (line :: lines, rest)
      | none => ([], s)
    | _ => ([], s)

/-- A line of a description without the blank in front and the white space behind. -/
def docText (line : List Char) : List Char :=
  trimEnd (match line with
    | ' ' :: line => line
    | line => line)

/-- The description at the front of a text, its lines separated by line feeds. -/
def description (s : List Char) : Option String × List Char :=
  let (lines, rest) := docLines s.length s
  (if lines = [] then none
    else some ("\n".intercalate (lines.map fun line => String.ofList (docText line))), rest)

/-! ## Words -/

/-- One given character. -/
def sign (c : Char) : Reader Unit
  | d :: s => if d = c then .ok ((), s) else .error { rest := d :: s }
  | [] => .error { rest := [] }

/-- `r` behind blanks and comments. -/
def lexeme {α : Type} (r : Reader α) : Reader α := fun s => r (trivia s)

/-- An identifier, as long as possible. -/
def word : Reader String
  | [] => .error { rest := [] }
  | c :: s =>
    if isIdentifierStart c then
      .ok (String.ofList (c :: s.takeWhile isIdentifierPart), s.dropWhile isIdentifierPart)
    else .error { rest := c :: s }

/-- The text behind `w`, if it starts with `w`. -/
def dropWord? : List Char → List Char → Option (List Char)
  | [], s => some s
  | c :: w, d :: s => if c = d then dropWord? w s else none
  | _ :: _, [] => none

/-- A key word that no character of an identifier follows. -/
def keyword (w : String) : Reader Unit := fun s =>
  match dropWord? w.toList s with
  | none => .error { rest := s }
  | some rest =>
    if (rest.head?.map isIdentifierPart).getD false then .error { rest } else .ok ((), rest)

/-! ## Quoted texts -/

/-- The character that hexadecimal digits name. -/
def namedChar? (digits : List Char) : Option Char :=
  let n := hexNumber digits
  if h : n.isValidChar then some (Char.ofNatAux n h) else none

/-- What follows the `u` of an escape: one to six hexadecimal digits between braces. `whole` is
the text from the `u` on. -/
def codePoint (whole : List Char) : Reader Char
  | c :: s =>
    if c = '\x7b' then
      let digits := (s.take 6).takeWhile fun c => (hexValue? c).isSome
      let rest := s.drop digits.length
      if digits = [] then .error { rest := s }
      else match rest with
        | d :: t =>
          if d = '\x7d' then
            match namedChar? digits with
            | some c => .ok (c, t)
            | none => .error { rest := whole }
          else .error { rest }
        | [] => .error { rest }
    else .error { rest := c :: s }
  | [] => .error { rest := [] }

/-- The characters that a backslash and a single character stand for. -/
def shortEscape? : Char → Option Char
  | 'n' => some '\n'
  | 't' => some '\t'
  | 'r' => some '\r'
  | '0' => some '\x00'
  | '"' => some '"'
  | '\\' => some '\\'
  | '/' => some '/'
  | _ => none

/-- What follows a backslash between quotes. -/
def escape : Reader Char := Reader.hinting escaped [.part "escape sequence"]
where
  /-- `escape` without its hint. -/
  escaped : Reader Char
    | [] => .error { rest := [] }
    | c :: t =>
      match shortEscape? c with
      | some d => .ok (d, t)
      | none => if c = 'u' then codePoint (c :: t) t else .error { rest := c :: t }

/-- The characters up to the closing quote. -/
def quotedBody : Nat → Reader (List Char)
  | 0, s => .error { rest := s, committed := true, hints := [.expected "\""] }
  | _ + 1, [] => .error { rest := [], committed := true, hints := [.expected "\""] }
  | n + 1, c :: s =>
    if c = '"' then .ok ([], s)
    else if c = '\\' then do
      let (d, s) ← Reader.orCommit escape s
      let (cs, s) ← quotedBody n s
      return (d :: cs, s)
    else do
      let (cs, s) ← quotedBody n s
      return (c :: cs, s)

/-- A text between quotes. -/
def quoted : Reader String := fun s => do
  let (_, s) ← sign '"' s
  let (cs, s) ← quotedBody (s.length + 1) s
  return (String.ofList cs, s)

/-- The characters up to the closing slash. A backslash keeps the next character from its
meaning here; it is dropped in front of a slash and stays in front of any other character. -/
def slashedBody : Nat → Reader (List Char)
  | 0, s => .error { rest := s, committed := true, hints := [.expected "/"] }
  | _ + 1, [] => .error { rest := [], committed := true, hints := [.expected "/"] }
  | n + 1, c :: s =>
    if c = '\n' then .error { rest := c :: s, committed := true, hints := [.expected "/"] }
    else if c = '/' then .ok ([], s)
    else if c = '\\' then
      match s with
      | [] => .error { rest := [], committed := true }
      | d :: s => do
        let (cs, s) ← slashedBody n s
        return ((if d = '/' then [d] else [c, d]) ++ cs, s)
    else do
      let (cs, s) ← slashedBody n s
      return (c :: cs, s)

/-- A regular expression between slashes. -/
def slashed : Reader String := fun s => do
  let (_, s) ← sign '/' s
  let (cs, s) ← slashedBody (s.length + 1) s
  return (String.ofList cs, s)

end GrammarKit.Notation
