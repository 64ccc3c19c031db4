import GrammarKit.Regex.Syntax
import GrammarKit.Text.Classes
import GrammarKit.Text.Utf8

/-!
# Reading escapes

In **verbose** mode, white space and comments may stand between the characters of most escapes.

* `skipSpace`: passes over white space and comments in verbose mode.
* `Primitive`, `escape`: what a backslash and the characters behind it stand for.
-/

namespace GrammarKit.Regex

open Text

/-! ## Verbose mode -/

/-- The text behind white space and comments; `comment` tells that a comment is open. -/
def skipVerbose : (comment : Bool) → List Char → List Char
  | _, [] => []
  | true, c :: s => skipVerbose (c ≠ '\n') s
  | false, c :: s =>
    if isWhiteSpace c then skipVerbose false s
    else if c = '#' then skipVerbose true s else c :: s

/-- The text behind white space and comments, in verbose mode. -/
def skipSpace (verbose : Bool) (s : List Char) : List Char :=
  if verbose then skipVerbose false s else s

/-- The text behind its first character and what may follow that in verbose mode. -/
def advance (verbose : Bool) (s : List Char) : List Char := skipSpace verbose s.tail

/-! ## Hexadecimal escapes -/

/-- Exactly `n` digits. -/
def fixedHex (verbose : Bool) : Nat → List Char → Except ReadError (List Char × List Char)
  | 0, s => .ok ([], s)
  | _ + 1, [] => .error .escapeUnexpectedEnd
  | n + 1, c :: s =>
    if (hexValue? c).isSome then do
      let (cs, s) ← fixedHex verbose n (skipSpace verbose s)
      return (c :: cs, s)
    else .error .escapeHexInvalidDigit

/-- Digits up to a closing brace, which is passed over. -/
def bracedHex (verbose : Bool) : Nat → List Char → Except ReadError (List Char × List Char)
  | 0, _ => .error .escapeUnexpectedEnd
  | _ + 1, [] => .error .escapeUnexpectedEnd
  | n + 1, c :: s =>
    if c = '\x7d' then .ok ([], skipSpace verbose s)
    else if (hexValue? c).isSome then do
      let (cs, s) ← bracedHex verbose n (skipSpace verbose s)
      return (c :: cs, s)
    else .error .escapeHexInvalidDigit

/-- The character of that number. -/
def hexChar (digits : List Char) : Except ReadError Char :=
  match scalar? (hexNumber digits) with
  | some c => .ok c
  | none => .error .escapeHexInvalid

/-- A hexadecimal escape behind its letter, which asks for `width` digits without braces. Two
digits name a byte. -/
def hexEscape (verbose : Bool) (width : Nat) (s : List Char) :
    Except ReadError (Literal × List Char) :=
  match s with
  | [] => .error .escapeUnexpectedEnd
  | c :: t =>
    if c = '\x7b' then do
      let (digits, rest) ← bracedHex verbose (s.length) (skipSpace verbose t)
      if digits = [] then .error .escapeHexEmpty
      else return ({ char := ← hexChar digits }, rest)
    else do
      let (digits, rest) ← fixedHex verbose width s
      return ({ char := ← hexChar digits, byte := width = 2 }, rest)

/-! ## Classes by property -/

/-- Characters up to a closing brace, which is passed over. -/
def bracedName (verbose : Bool) : Nat → List Char → Except ReadError (List Char × List Char)
  | 0, _ => .error .escapeUnexpectedEnd
  | _ + 1, [] => .error .escapeUnexpectedEnd
  | n + 1, c :: s =>
    if c = '\x7d' then .ok ([], s)
    else do
      let (cs, s) ← bracedName verbose n (skipSpace verbose s)
      return (c :: cs, s)

/-- Splits a text at the first place where `mark` stands. -/
def splitOnMark? (mark : List Char) : List Char → Option (List Char × List Char)
  | [] => none
  | c :: s =>
    if mark.isPrefixOf (c :: s) then some ([], (c :: s).drop mark.length)
    else (splitOnMark? mark s).map fun (a, b) => (c :: a, b)

/-- The query between the braces: a name, or a property and a value. -/
def propertyQuery (name : List Char) : PropertyQuery :=
  match splitOnMark? ['!', '='] name with
  | some (property, value) => .valued (String.ofList property) (String.ofList value) true
  | none =>
    match [[':'], ['=']].findSome? (splitOnMark? · name) with
    | some (property, value) => .valued (String.ofList property) (String.ofList value) false
    | none => .named (String.ofList name)

/-- A class by property behind its letter. -/
def propertyClass (verbose : Bool) (s : List Char) : Except ReadError (PropertyQuery × List Char) :=
  match s with
  | [] => .error .escapeUnexpectedEnd
  | c :: t =>
    if c = '\x7b' then do
      let (name, rest) ← bracedName verbose s.length (skipSpace verbose t)
      return (propertyQuery name, rest)
    else if c = '\\' then .error .unicodeClassInvalid
    else .ok (.named c.toString, skipSpace verbose t)

/-! ## Word boundaries -/

/-- Characters of the names of word boundaries. -/
def isBoundaryChar (c : Char) : Bool := c.isAlpha || c == '-'

/-- The characters of a name, between which verbose mode allows white space. -/
def boundaryName (verbose : Bool) : Nat → List Char → List Char × List Char
  | 0, s => ([], s)
  | _ + 1, [] => ([], [])
  | n + 1, c :: s =>
    if isBoundaryChar c then
      let (cs, s) := boundaryName verbose n (skipSpace verbose s)
      (c :: cs, s)
    else ([], c :: s)

/-- The word boundary of that name. -/
def namedBoundary? (name : String) : Option Assertion :=
  match name with
  | "start" => some .wordStart
  | "end" => some .wordEnd
  | "start-half" => some .wordStartHalf
  | "end-half" => some .wordEndHalf
  | _ => none

/-- The word boundary that may be named between braces. What cannot be a name is left for a
counted repetition. -/
def boundary (verbose : Bool) (s : List Char) : Except ReadError (Assertion × List Char) :=
  match s with
  | c :: _ =>
    if c = '\x7b' then
      match advance verbose s with
      | [] => .error .wordBoundaryUnexpectedEnd
      | d :: t =>
        if isBoundaryChar d then
          let (name, rest) := boundaryName verbose s.length (d :: t)
          match rest with
          | e :: rest =>
            if e = '\x7d' then
              match namedBoundary? (String.ofList name) with
              | some a => .ok (a, rest)
              | none => .error .wordBoundaryUnrecognized
            else .error .wordBoundaryUnclosed
          | [] => .error .wordBoundaryUnclosed
        else .ok (.wordBoundary, s)
    else .ok (.wordBoundary, s)
  | [] => .ok (.wordBoundary, s)

/-! ## Escapes -/

/-- What a backslash and the characters behind it stand for. -/
inductive Primitive where
  | literal (l : Literal)
  | assertion (a : Assertion)
  | escapeClass (kind : EscapeClass) (negated : Bool)
  | property (query : PropertyQuery) (negated : Bool)

/-- Characters with a meaning of their own. -/
def isMeta (c : Char) : Bool := "\\.+*?()|[]\x7b\x7d^$#&-~".toList.contains c

/-- Characters that may stand behind a backslash for themselves. -/
def isEscapable (c : Char) : Bool :=
  isMeta c || (c.toNat < 0x80 && !c.isAlphanum && c != '<' && c != '>')

/-- What the text behind a backslash starts with. -/
def escape (verbose : Bool) (s : List Char) : Except ReadError (Primitive × List Char) :=
  let plain (c : Char) (s : List Char) := .ok (.literal { char := c }, s)
  match s with
  | [] => .error .escapeUnexpectedEnd
  | c :: t =>
    if c.isDigit then .error .unsupportedBackreference
    else if isEscapable c then plain c t
    else match c with
      | 'x' => (hexEscape verbose 2 (skipSpace verbose t)).map fun (l, s) => (.literal l, s)
      | 'u' => (hexEscape verbose 4 (skipSpace verbose t)).map fun (l, s) => (.literal l, s)
      | 'U' => (hexEscape verbose 8 (skipSpace verbose t)).map fun (l, s) => (.literal l, s)
      | 'p' =>
        (propertyClass verbose (skipSpace verbose t)).map fun (q, s) => (.property q false, s)
      | 'P' =>
        (propertyClass verbose (skipSpace verbose t)).map fun (q, s) => (.property q true, s)
      | 'd' => .ok (.escapeClass .digit false, t)
      | 'D' => .ok (.escapeClass .digit true, t)
      | 's' => .ok (.escapeClass .space false, t)
      | 'S' => .ok (.escapeClass .space true, t)
      | 'w' => .ok (.escapeClass .word false, t)
      | 'W' => .ok (.escapeClass .word true, t)
      | 'a' => plain '\x07' t
      | 'f' => plain '\x0c' t
      | 't' => plain '\t' t
      | 'n' => plain '\n' t
      | 'r' => plain '\r' t
      | 'v' => plain '\x0b' t
      | 'A' => .ok (.assertion .startText, t)
      | 'z' => .ok (.assertion .endText, t)
      | 'b' => (boundary verbose t).map fun (a, s) => (.assertion a, s)
      | 'B' => .ok (.assertion .notWordBoundary, t)
      | '<' => .ok (.assertion .wordStart, t)
      | '>' => .ok (.assertion .wordEnd, t)
      | _ => .error .escapeUnrecognized

end GrammarKit.Regex
