import GrammarKit.Peg.Attempts
import GrammarKit.Peg.Definition
import GrammarKit.Text.CodePoints
import GrammarKit.Text.Utf8

/-!
# Words of grammar texts

* `dropGap`: blanks and comments, which may stand between any two words.
* `Reader`: readers that remember failed attempts.
* `name?`, `quoted?`, `character?`, `digits?`: the words.
-/

namespace GrammarKit.Peg

/-! ## Blanks and comments -/

/-- The text behind the blanks at its front. A carriage return is blank before a line feed only. -/
def skipBlanks : List Char → List Char
  | '\r' :: '\n' :: s => skipBlanks s
  | c :: s => if c = ' ' ∨ c = '\t' ∨ c = '\n' then skipBlanks s else c :: s
  | [] => []

/-- The text behind the end of a comment whose start has been passed. Comments nest, but a start
without an end is plain text. -/
def afterComment : Nat → List Char → Option (List Char)
  | 0, _ => none
  | _ + 1, [] => none
  | _ + 1, '*' :: '/' :: s => some s
  | n + 1, '/' :: '*' :: s =>
    match afterComment n s with
    | some rest => afterComment n rest
    | none => afterComment n ('*' :: s)
  | n + 1, _ :: s => afterComment n s

/-- The text from the end of its first line on. -/
def dropLine : List Char → List Char
  | [] => []
  | '\n' :: s => '\n' :: s
  | '\r' :: '\n' :: s => '\r' :: '\n' :: s
  | _ :: s => dropLine s

/-- The text behind the comment at its front. Two slashes start a comment up to the end of the
line, unless a slash or an exclamation mark follows. -/
def comment? : List Char → Option (List Char)
  | '/' :: '*' :: s => afterComment (s.length + 1) s
  | '/' :: '/' :: s =>
    if s.head? = some '/' ∨ s.head? = some '!' then none else some (dropLine s)
  | _ => none

/-- `dropGap` past at most that many comments. -/
def dropGapUpTo : Nat → List Char → List Char
  | 0, s => skipBlanks s
  | n + 1, s =>
    match comment? (skipBlanks s) with
    | some rest => dropGapUpTo n rest
    | none => skipBlanks s

/-- The text behind the blanks and comments at its front. -/
def dropGap (s : List Char) : List Char := dropGapUpTo s.length s

/-! ## Words -/

/-- The text behind `w`, if it starts with `w`. -/
def drop? : List Char → List Char → Option (List Char)
  | [], s => some s
  | c :: w, d :: s => if c = d then drop? w s else none
  | _ :: _, [] => none

/-- Letters and the underscore. -/
def startsName (c : Char) : Bool := c == '_' || c.isAlpha

/-- Letters, digits and the underscore. -/
def continuesName (c : Char) : Bool := c == '_' || c.isAlphanum

/-- A name, which cannot start with the word `PUSH`. -/
def name? (s : List Char) : Option (String × List Char) :=
  match s with
  | c :: t =>
    if startsName c ∧ (drop? ['P', 'U', 'S', 'H'] s).isNone then
      some (String.ofList (c :: t.takeWhile continuesName), t.dropWhile continuesName)
    else none
  | [] => none

/-- Digits, at least one. -/
def digits? (s : List Char) : Option (List Char × List Char) :=
  if (s.takeWhile Char.isDigit).isEmpty then none
  else some (s.takeWhile Char.isDigit, s.dropWhile Char.isDigit)

/-- The number that digits write. -/
def number (digits : List Char) : Nat :=
  digits.foldl (fun n c => 10 * n + (c.toNat - '0'.toNat)) 0

/-- A hexadecimal digit. -/
def isHexDigit (c : Char) : Bool := (Text.hexValue? c).isSome

/-- What stands for a character behind a backslash. The inner value is missing if the character
is given by a number that no character has. -/
def escape? : List Char → Option (Option Char × List Char)
  | '"' :: s => some (some '"', s)
  | '\\' :: s => some (some '\\', s)
  | 'r' :: s => some (some '\r', s)
  | 'n' :: s => some (some '\n', s)
  | 't' :: s => some (some '\t', s)
  | '0' :: s => some (some (Char.ofNat 0), s)
  | '\'' :: s => some (some '\'', s)
  | 'x' :: a :: b :: s =>
    if isHexDigit a ∧ isHexDigit b then some (Text.scalar? (Text.hexNumber [a, b]), s) else none
  | 'u' :: '\x7b' :: s =>
    let digits := (s.take 6).takeWhile isHexDigit
    match s.drop digits.length with
    | '\x7d' :: rest =>
      if 2 ≤ digits.length then some (Text.scalar? (Text.hexNumber digits), rest) else none
    | _ => none
  | _ => none

/-- The characters up to a quote or up to a backslash that stands for no character. -/
def innerText : Nat → List Char → List (Option Char) × List Char
  | 0, s => ([], s)
  | _ + 1, [] => ([], [])
  | n + 1, c :: s =>
    if c = '"' then ([], c :: s)
    else if c = '\\' then
      match escape? s with
      | some (d, rest) => let (cs, rest) := innerText n rest; (d :: cs, rest)
      | none => ([], c :: s)
    else let (cs, rest) := innerText n s; (some c :: cs, rest)

/-- One character other than a single quote, or an escape. -/
def innerChar? : List Char → Option (Option Char × List Char)
  | [] => none
  | c :: s =>
    if c = '\'' then none
    else if c = '\\' then
      match escape? s with
      | some r => some r
      | none => some (some c, s)
    else some (some c, s)

/-- The characters that a text with escapes stands for, if all its escapes stand for one. -/
def unescape? : Nat → List Char → Option (List Char)
  | _, [] => some []
  | 0, _ :: _ => none
  | n + 1, c :: s =>
    if c = '\\' then
      match escape? s with
      | some (some d, rest) => (unescape? n rest).map (d :: ·)
      | _ => none
    else (unescape? n s).map (c :: ·)

/-! ## Readers -/

/-- What a reader leaves: the failed attempts, and its value with the rest of the text. -/
structure Step (α : Type) where
  attempts : Attempts
  value : Option (α × List Char)

/-- **A reader**, which remembers failed attempts. -/
def Reader (α : Type) : Type := List Char → Attempts → Step α

namespace Reader

variable {α β : Type}

/-- Reads nothing. -/
protected def pure (x : α) : Reader α := fun s a => ⟨a, some (x, s)⟩

/-- One reader after the other. -/
protected def bind (r : Reader α) (f : α → Reader β) : Reader β := fun s a =>
  match r s a with
  | ⟨a, some (x, s)⟩ => f x s a
  | ⟨a, none⟩ => ⟨a, none⟩

instance : Monad Reader where
  pure := Reader.pure
  bind := Reader.bind

/-- The first reader, or else the second. -/
def orElse (r : Reader α) (t : Reader α) : Reader α := fun s a =>
  match r s a with
  | ⟨a, none⟩ => t s a
  | step => step

/-- Never reads. -/
def fail : Reader α := fun _ a => ⟨a, none⟩

/-- The first of the readers that succeeds. -/
def firstOf (rs : List (Reader α)) : Reader α := rs.foldr orElse fail

/-- What is read, if anything. -/
def opt (r : Reader α) : Reader (Option α) := fun s a =>
  match r s a with
  | ⟨a, some (x, s)⟩ => ⟨a, some (some x, s)⟩
  | ⟨a, none⟩ => ⟨a, some (none, s)⟩

/-- A reader without attempts of its own. -/
def plain (r : List Char → Option (α × List Char)) : Reader α := fun s a => ⟨a, r s⟩

/-- Blanks and comments. -/
def gap : Reader Unit := plain fun s => some ((), dropGap s)

/-- A fixed text. -/
def literal (w : String) : Reader Unit := plain fun s =>
  (drop? w.toList s).map fun rest => ((), rest)

/-- A reader whose failure is an attempt of that name. -/
def named (name : String) (r : Reader α) : Reader α := fun s a =>
  match r s a with
  | ⟨b, none⟩ => ⟨b.record a s.length name false, none⟩
  | step => step

/-- A fixed text as an attempt of that name, with its place. -/
def sign (name w : String) : Reader Span := named name fun s a =>
  match drop? w.toList s with
  | some rest => ⟨a, some (⟨s.length, rest.length⟩, rest)⟩
  | none => ⟨a, none⟩

/-- What is read, with its place. -/
def located (r : Reader α) : Reader (α × Span) := fun s a =>
  match r s a with
  | ⟨a, some (x, rest)⟩ => ⟨a, some ((x, ⟨s.length, rest.length⟩), rest)⟩
  | ⟨a, none⟩ => ⟨a, none⟩

/-- At most `n` values with gaps in front of each. -/
def manyAfterGap (r : Reader α) : Nat → Reader (List α)
  | 0 => pure []
  | n + 1 => fun s a =>
    match (gap.bind fun _ => r) s a with
    | ⟨a, some (x, rest)⟩ =>
      match manyAfterGap r n rest a with
      | ⟨a, some (xs, rest)⟩ => ⟨a, some (x :: xs, rest)⟩
      | ⟨a, none⟩ => ⟨a, some ([x], rest)⟩
    | ⟨a, none⟩ => ⟨a, some ([], s)⟩

/-- Values as long as there are any, with gaps between them. -/
def many (r : Reader α) : Reader (List α) := fun s a =>
  match r s a with
  | ⟨a, some (x, rest)⟩ =>
    match manyAfterGap r rest.length rest a with
    | ⟨a, some (xs, rest)⟩ => ⟨a, some (x :: xs, rest)⟩
    | ⟨a, none⟩ => ⟨a, some ([x], rest)⟩
  | ⟨a, none⟩ => ⟨a, some ([], s)⟩

end Reader

end GrammarKit.Peg
