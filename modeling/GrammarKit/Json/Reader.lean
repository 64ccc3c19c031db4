import GrammarKit.Json
import GrammarKit.Text.Classes

/-!
# Reading structured values

A strict reader of JSON text: no comments, no trailing commas, no unescaped control characters,
no lone surrogates. Of a record, only the members that are asked for are read; what stands under
other names is passed over and may hold lone surrogates.

* `Json.value`: one value.
* `Json.Outline`: what of a value is asked for.
* `Json.parse?`, `Json.parseOutline?`: the value that a text writes, or what is asked for of it.
-/

namespace GrammarKit.Json

open Text

/-- A reader takes a value off the front of a text. -/
abbrev Reader (α : Type) := List Char → Option (α × List Char)

/-- The text behind the blanks at its front. -/
def skipBlanks (s : List Char) : List Char := s.dropWhile isBlank

/-- Four hexadecimal digits. -/
def fourDigits : Reader Nat
  | a :: b :: c :: d :: s => do
    let a ← hexValue? a
    let b ← hexValue? b
    let c ← hexValue? c
    let d ← hexValue? d
    return (((a * 16 + b) * 16 + c) * 16 + d, s)
  | _ => none

/-- What follows the backslash and the `u` of an escape; two surrogates form one character. -/
def codeEscape : Reader Char := fun s => do
  let (n, s) ← fourDigits s
  if 0xD800 ≤ n ∧ n < 0xDC00 then
    match s with
    | '\\' :: 'u' :: s =>
      let (m, s) ← fourDigits s
      if 0xDC00 ≤ m ∧ m < 0xE000 then
        return (Char.ofNat (0x10000 + (n - 0xD800) * 0x400 + (m - 0xDC00)), s)
      else none
    | _ => none
  else if 0xDC00 ≤ n ∧ n < 0xE000 then none
  else return (Char.ofNat n, s)

/-- What follows the backslash of an escape. -/
def escape : Reader Char
  | '"' :: s => some ('"', s)
  | '\\' :: s => some ('\\', s)
  | '/' :: s => some ('/', s)
  | 'b' :: s => some ('\x08', s)
  | 'f' :: s => some ('\x0c', s)
  | 'n' :: s => some ('\n', s)
  | 'r' :: s => some ('\r', s)
  | 't' :: s => some ('\t', s)
  | 'u' :: s => codeEscape s
  | _ => none

/-- The characters of a string up to its closing quote. -/
def stringBody : Nat → Reader (List Char)
  | 0, _ => none
  | _ + 1, [] => none
  | n + 1, c :: s =>
    if c = '"' then some ([], s)
    else if c = '\\' then do
      let (c, s) ← escape s
      let (cs, s) ← stringBody n s
      return (c :: cs, s)
    else if c.toNat < 0x20 then none
    else do
      let (cs, s) ← stringBody n s
      return (c :: cs, s)

/-- A string behind its opening quote. -/
def stringTail : Reader String := fun s => do
  let (cs, s) ← stringBody s.length s
  return (String.ofList cs, s)

/-- A code escape or another one, whatever it stands for. -/
def skipEscape : Reader Unit
  | 'u' :: s => (fourDigits s).map fun (_, s) => ((), s)
  | s => (escape s).map fun (_, s) => ((), s)

/-- Passes over a string up to its closing quote. -/
def skipString : Nat → Reader Unit
  | 0, _ => none
  | _ + 1, [] => none
  | n + 1, c :: s =>
    if c = '"' then some ((), s)
    else if c = '\\' then do
      let (_, s) ← skipEscape s
      skipString n s
    else if c.toNat < 0x20 then none
    else skipString n s

/-- Passes over a string behind its opening quote, as if it were empty. -/
def anyStringTail : Reader String := fun s => (skipString s.length s).map fun (_, s) => ("", s)

/-- One or more digits. -/
def digits : Reader (List Char) := fun s =>
  match s.takeWhile Char.isDigit with
  | [] => none
  | ds => some (ds, s.dropWhile Char.isDigit)

/-- The digits before a fraction: no zero in front of other digits. -/
def wholeDigits : Reader (List Char)
  | '0' :: s => some (['0'], s)
  | s => digits s

/-- A fraction, if there is one. -/
def fraction : Reader (List Char)
  | '.' :: s => do
    let (ds, s) ← digits s
    return ('.' :: ds, s)
  | s => some ([], s)

/-- An exponent, if there is one. -/
def exponent : Reader (List Char)
  | c :: s =>
    if c = 'e' ∨ c = 'E' then
      match s with
      | '+' :: s => (digits s).map fun (ds, s) => (c :: '+' :: ds, s)
      | '-' :: s => (digits s).map fun (ds, s) => (c :: '-' :: ds, s)
      | s => (digits s).map fun (ds, s) => (c :: ds, s)
    else some ([], c :: s)
  | [] => some ([], [])

/-- The number that decimal digits write. -/
def decimal (ds : List Char) : Nat := ds.foldl (fun n c => 10 * n + (c.toNat - '0'.toNat)) 0

/-- A number; `-0` is no whole number. -/
def number? : Reader Number := fun s => do
  let (sign, s) := match s with
    | '-' :: s => (['-'], s)
    | s => ([], s)
  let (ds, s) ← wholeDigits s
  let (f, s) ← fraction s
  let (e, s) ← exponent s
  if f = [] ∧ e = [] ∧ ¬ (sign ≠ [] ∧ decimal ds = 0) then
    return (.whole (if sign = [] then decimal ds else -(decimal ds : Int)), s)
  else return (.decimal (String.ofList (sign ++ ds ++ f ++ e)), s)

/-- Items up to the closing bracket, each read by `item`. -/
def items (item : Reader Json) : Nat → Reader (List Json)
  | 0, _ => none
  | n + 1, s => do
    let (j, s) ← item s
    match skipBlanks s with
    | ',' :: s =>
      let (js, s) ← items item n s
      return (j :: js, s)
    | ']' :: s => return ([j], s)
    | _ => none

/-- Members up to the closing brace, each name read by `name` and what follows it by `member`. -/
def membersTail (name : Reader String) (member : String → Reader (List (String × Json))) :
    Nat → Reader (List (String × Json))
  | 0, _ => none
  | n + 1, s => do
    match skipBlanks s with
    | '"' :: s =>
      let (key, s) ← name s
      match skipBlanks s with
      | ':' :: s =>
        let (ms, s) ← member key s
        match skipBlanks s with
        | ',' :: s =>
          let (more, s) ← membersTail name member n s
          return (ms ++ more, s)
        | c :: s => if c = '\x7d' then return (ms, s) else none
        | [] => none
      | _ => none
    | _ => none

/-- An object behind its opening brace. -/
def objectTail (name : Reader String) (member : String → Reader (List (String × Json))) :
    Reader Json := fun s =>
  match skipBlanks s with
  | c :: t =>
    if c = '\x7d' then some (.object [], t)
    else (membersTail name member (c :: t).length (c :: t)).map fun (ms, s) => (.object ms, s)
  | [] => none

/-- A value with fewer than `n` levels of nesting, whose strings are read by `text`. -/
def value (text : Reader String) : Nat → Reader Json
  | 0, _ => none
  | n + 1, s =>
    match skipBlanks s with
    | 'n' :: 'u' :: 'l' :: 'l' :: s => some (.null, s)
    | 't' :: 'r' :: 'u' :: 'e' :: s => some (.bool true, s)
    | 'f' :: 'a' :: 'l' :: 's' :: 'e' :: s => some (.bool false, s)
    | '"' :: s => (text s).map fun (t, s) => (.string t, s)
    | '[' :: s =>
      match skipBlanks s with
      | ']' :: s => some (.array [], s)
      | s => (items (value text n) s.length s).map fun (js, s) => (.array js, s)
    | c :: s =>
      if c = '\x7b' then
        objectTail text (fun key s => (value text n s).map fun (j, s) => ([(key, j)], s)) s
      else (number? (c :: s)).map fun (k, s) => (.number k, s)
    | [] => none

/-! ## Outlines -/

/-- **What of a value is asked for.** -/
inductive Outline where
  /-- All of it. -/
  | whole
  /-- The named members of an object, or the items of an array in that order. -/
  | record (fields : List (String × Outline))
deriving Inhabited

/-- Items up to the closing bracket, each read by the next of `readers`, and further ones by
`item`. -/
def itemsBy (item : Reader Json) : Nat → List (Reader Json) → Reader (List Json)
  | 0, _, _ => none
  | n + 1, readers, s => do
    let (j, s) ← (readers.headD item) s
    match skipBlanks s with
    | ',' :: s =>
      let (js, s) ← itemsBy item n readers.tail s
      return (j :: js, s)
    | ']' :: s => return ([j], s)
    | _ => none

/-- What `outline` asks for of a value with fewer than `n` levels of nesting. -/
def outlined : Nat → (outline : Outline) → Reader Json
  | 0, _, _ => none
  | n + 1, .whole, s => value stringTail (n + 1) s
  | n + 1, .record fields, s =>
    match skipBlanks s with
    | '[' :: s =>
      match skipBlanks s with
      | ']' :: s => some (.array [], s)
      | s =>
        (itemsBy (value stringTail n) s.length (fields.map fun f => outlined n f.2) s).map
          fun (js, s) => (.array js, s)
    | c :: s =>
      if c = '\x7b' then
        objectTail stringTail (fun key s =>
          match Entries.find? key fields with
          | some outline => (outlined n outline s).map fun (j, s) => ([(key, j)], s)
          | none => (value anyStringTail n s).map fun (_, s) => ([], s)) s
      else value stringTail (n + 1) (c :: s)
    | [] => none

/-- What an outline asks for of the value that a whole text writes. -/
def parseOutline? (outline : Outline) (text : String) : Option Json := do
  let s := text.toList
  let (j, rest) ← outlined (s.length + 1) outline s
  if skipBlanks rest = [] then some j else none

/-- The value that a whole text writes. -/
def parse? (text : String) : Option Json := parseOutline? .whole text

end GrammarKit.Json
