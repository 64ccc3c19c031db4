import GrammarKit.Code.Token

/-!
# Reading code

Names and type paths of generated code come from outside; they are read as its compiler
reads them.

* `Lexeme`: words, literals, lifetimes, signs and groups.
* `lex?`: the lexemes of a text.
* `isIdentifier`: whether a text is one identifier, blanks and comments around it aside.
* `identToken?`: an identifier as a token.
-/

namespace GrammarKit.Code

open Text

/-- A piece of code. A sign is joint if another sign follows at once. -/
inductive Lexeme where
  | word (text : String)
  | literal (text : String)
  | lifetime (text : String)
  | sign (c : Char) (joint : Bool)
  | group (delimiter : Delimiter) (body : List Lexeme)
deriving Repr

/-! ## Blanks and comments -/

/-- The text behind the end of a nested comment of that depth. -/
def afterComment? : Nat → List Char → Option (List Char)
  | depth, '/' :: '*' :: s => afterComment? (depth + 1) s
  | 0, '*' :: '/' :: s => some s
  | depth + 1, '*' :: '/' :: s => afterComment? depth s
  | depth, _ :: s => afterComment? depth s
  | _, [] => none

/-- The text behind the comment at its front, which is no documentation. -/
def comment? : List Char → Option (List Char)
  | '/' :: '*' :: '*' :: '/' :: s => some s
  | '/' :: '*' :: s =>
    match s with
    | '!' :: _ => none
    | '*' :: '*' :: _ => afterComment? 0 s
    | '*' :: _ => none
    | _ => afterComment? 0 s
  | '/' :: '/' :: s =>
    match s with
    | '!' :: _ => none
    | '/' :: '/' :: _ => some (s.dropWhile (· != '\n'))
    | '/' :: _ => none
    | _ => some (s.dropWhile (· != '\n'))
  | _ => none

/-- White space of code: that of any script and the two marks of direction. -/
def isCodeBlank (c : Char) : Bool := isWhiteSpace c || c.toNat == 0x200E || c.toNat == 0x200F

/-- The text behind at most `n` blanks and comments. -/
def skipTrivia : Nat → List Char → List Char
  | 0, s => s
  | n + 1, s =>
    match s with
    | [] => []
    | c :: t =>
      if isCodeBlank c then skipTrivia n t
      else match comment? s with
        | some rest => skipTrivia n rest
        | none => s

/-! ## Words -/

/-- Characters that start an identifier. -/
def startsIdent (c : Char) : Bool := c == '_' || isNameStart c

/-- The text behind an identifier. -/
def afterIdent? : List Char → Option (List Char)
  | c :: s => if startsIdent c then some (s.dropWhile isNamePart) else none
  | [] => none

/-- The front of `s` up to `rest`. -/
def front (s rest : List Char) : String := String.ofList (s.take (s.length - rest.length))

/-- Names that have no raw form. -/
def neverRaw : List String := ["_", "super", "self", "Self", "crate"]

/-- The text behind an identifier, which may be raw. -/
def afterAnyIdent? (s : List Char) : Option (List Char) :=
  match s with
  | 'r' :: '#' :: t =>
    (afterIdent? t).bind fun rest => if front t rest ∈ neverRaw then none else some rest
  | _ => afterIdent? s

/-! ## Literals -/

/-- Hexadecimal digits. -/
def isHex (c : Char) : Bool := (hexValue? c).isSome

/-- The text behind a character number between braces; `count` digits have been read so far. -/
def afterNumber? (value count : Nat) : List Char → Option (List Char)
  | [] => none
  | c :: s =>
    if c = '_' ∧ 0 < count then afterNumber? value count s
    else if c = '\x7d' ∧ 0 < count then if value.isValidChar then some s else none
    else match hexValue? c with
      | some d => if count = 6 then none else afterNumber? (16 * value + d) (count + 1) s
      | none => none

/-- The kinds of quoted literals: a text, bytes, or a text whose end NUL marks. -/
inductive LiteralKind where
  | text
  | bytes
  | terminated
deriving DecidableEq

/-- Whether a character may stand in a literal: bytes are ASCII, and a text that NUL ends has none
inside. -/
def LiteralKind.admits (kind : LiteralKind) (c : Char) : Bool :=
  match kind with
  | .text => true
  | .bytes => c.toNat < 0x80
  | .terminated => c.toNat != 0

/-- Whether the two hexadecimal digits of a character number may stand in a literal: in a text only
those of ASCII. -/
def LiteralKind.admitsDigits (kind : LiteralKind) (a b : Char) : Bool :=
  match kind with
  | .text => '0' ≤ a && a ≤ '7'
  | .bytes => true
  | .terminated => a != '0' || b != '0'

/-- The text behind what follows a backslash. -/
def afterEscape? (kind : LiteralKind) : List Char → Option (List Char)
  | 'x' :: a :: b :: s => if isHex a ∧ isHex b ∧ kind.admitsDigits a b then some s else none
  | 'u' :: '\x7b' :: s =>
    if kind = .bytes then none
    else if kind = .terminated ∧ (s.takeWhile (· ≠ '\x7d')).all (['0', '_'].contains ·) then none
    else afterNumber? 0 0 s
  | c :: s =>
    if c ∈ ['n', 'r', 't', '\\', '\'', '"'] ∨ (c = '0' ∧ kind ≠ .terminated) then some s else none
  | [] => none

/-- The text behind blanks at the start of a continued line. -/
def skipContinued : List Char → List Char
  | '\r' :: '\n' :: s => skipContinued s
  | c :: s => if c = ' ' ∨ c = '\t' ∨ c = '\n' then skipContinued s else c :: s
  | [] => []

/-- The text behind a suffix of a literal. -/
def afterSuffix (s : List Char) : List Char := (afterIdent? s).getD s

/-- The text behind the closing quote. -/
def afterQuoted? (kind : LiteralKind) : Nat → List Char → Option (List Char)
  | 0, _ => none
  | _ + 1, [] => none
  | n + 1, c :: s =>
    if c = '"' then some (afterSuffix s)
    else if c = '\r' then
      match s with
      | '\n' :: t => afterQuoted? kind n t
      | _ => none
    else if c = '\\' then
      match s with
      | '\n' :: t => afterQuoted? kind n (skipContinued t)
      | '\r' :: '\n' :: t => afterQuoted? kind n (skipContinued t)
      | _ => (afterEscape? kind s).bind (afterQuoted? kind n)
    else if kind.admits c then afterQuoted? kind n s
    else none

/-- The text behind a raw literal that ends with a quote and `marks` number signs. -/
def afterRaw? (kind : LiteralKind) (marks : Nat) : List Char → Option (List Char)
  | [] => none
  | c :: s =>
    if c = '"' ∧ (List.replicate marks '#').isPrefixOf s then some (afterSuffix (s.drop marks))
    else if c = '\r' ∧ s.head? ≠ some '\n' then none
    else if kind.admits c then afterRaw? kind marks s
    else none

/-- The text behind a raw literal whose first letters have been passed. -/
def afterRawStart? (kind : LiteralKind) (s : List Char) : Option (List Char) :=
  let marks := (s.takeWhile (· = '#')).length
  match s.drop marks with
  | '"' :: t => if marks ≤ 255 then afterRaw? kind marks t else none
  | _ => none

/-- The text behind a character and its closing quote. -/
def afterChar? (kind : LiteralKind) (s : List Char) : Option (List Char) :=
  let rest? := match s with
    | '\\' :: t => afterEscape? kind t
    | c :: t => if kind.admits c then some t else none
    | [] => none
  rest?.bind fun
    | '\'' :: t => some (afterSuffix t)
    | _ => none

/-- The text behind a suffix, which has to end the word. -/
def afterNumberSuffix? (s : List Char) : Option (List Char) :=
  let rest := afterSuffix s
  match rest with
  | c :: _ => if isNamePart c then none else some rest
  | [] => some rest

/-- Digits and underscores. -/
def isDigitPart (c : Char) : Bool := c.isDigit || c == '_'

/-- The text behind an exponent: a sign and digits. -/
def afterExponent? (s : List Char) : Option (List Char) :=
  let t := match s with
    | '+' :: t | '-' :: t => t
    | _ => s
  if (t.takeWhile isDigitPart).any Char.isDigit then some (t.dropWhile isDigitPart) else none

/-- The text behind the digits of a number with a point or an exponent. -/
def afterFloatDigits? (s : List Char) : Option (List Char) :=
  match s with
  | c :: _ =>
    if !c.isDigit then none
    else
      let isExponent (c : Char) := c == 'e' || c == 'E'
      match s.dropWhile isDigitPart with
      | '.' :: t =>
        if t.head?.any fun c => c == '.' || startsIdent c then none
        else
          let rest := t.dropWhile isDigitPart
          match rest with
          | e :: u => if isExponent e then some ((afterExponent? u).getD rest) else some rest
          | [] => some rest
      | e :: u => if isExponent e then afterExponent? u else none
      | [] => none
  | [] => none

/-- The text behind the digits of a whole number. -/
def afterDigits? (s : List Char) : Option (List Char) :=
  let scan (base : Nat) (t : List Char) : Option (List Char) :=
    let isPart (c : Char) :=
      c == '_' || c.isDigit || (hexValue? c).any (· < base)
    let digits := t.takeWhile isPart
    if digits.any (fun c => c.isDigit && (hexValue? c).any (base ≤ ·)) then none
    else if digits.all (· == '_') then none
    else if base = 10 ∧ digits.head? = some '_' then none
    else some (t.dropWhile isPart)
  match s with
  | '0' :: 'x' :: t => scan 16 t
  | '0' :: 'o' :: t => scan 8 t
  | '0' :: 'b' :: t => scan 2 t
  | _ => scan 10 s

/-- A literal that stands for one that could not be read. -/
def unreadable : List Char := "(/*ERROR*/)".toList

/-- The text behind the literal at its front. -/
def afterLiteral? (s : List Char) : Option (List Char) :=
  match s with
  | '"' :: t => afterQuoted? .text (t.length + 1) t
  | 'b' :: '"' :: t => afterQuoted? .bytes (t.length + 1) t
  | 'c' :: '"' :: t => afterQuoted? .terminated (t.length + 1) t
  | 'b' :: 'r' :: t => afterRawStart? .bytes t
  | 'c' :: 'r' :: t => afterRawStart? .terminated t
  | 'r' :: t => afterRawStart? .text t
  | 'b' :: '\'' :: t => afterChar? .bytes t
  | '\'' :: t => afterChar? .text t
  | '(' :: _ => if unreadable.isPrefixOf s then some (s.drop unreadable.length) else none
  | _ =>
    ((afterFloatDigits? s).bind afterNumberSuffix?) <|> ((afterDigits? s).bind afterNumberSuffix?)

/-! ## Lexemes -/

/-- The signs. -/
def signs : List Char := "~!@#$%^&*-=+|;:,<.>/?'".toList

/-- Whether a text starts with a sign; that of a comment is none. -/
def startsWithSign : List Char → Bool
  | '/' :: '/' :: _ | '/' :: '*' :: _ => false
  | c :: _ => c ∈ signs
  | [] => false

/-- Starts of literals, which start no word. -/
def literalStarts : List (List Char) :=
  ["r\"", "r#\"", "r##", "b\"", "b'", "br\"", "br#", "c\"", "cr\"", "cr#"].map String.toList

/-- The sign or lifetime at the front of a text. -/
def signOrLifetime? (s : List Char) : Option (Lexeme × List Char) :=
  match s with
  | '\'' :: t =>
    (afterAnyIdent? t).bind fun rest =>
      if rest.head? = some '\'' ∨ (rest.head? = some '#' ∧ t.take 2 ≠ ['r', '#']) then none
      else some (.lifetime (front s rest), rest)
  | c :: t => if startsWithSign s then some (.sign c (startsWithSign t), t) else none
  | [] => none

/-- The lexeme at the front of a text, groups aside. -/
def leaf? (s : List Char) : Option (Lexeme × List Char) :=
  match afterLiteral? s with
  | some rest => some (.literal (front s rest), rest)
  | none =>
    match signOrLifetime? s with
    | some r => some r
    | none =>
      if literalStarts.any fun w => w.isPrefixOf s then none
      else (afterAnyIdent? s).map fun rest => (.word (front s rest), rest)

/-- The delimiter that a character opens. -/
def opens? : Char → Option Delimiter
  | '(' => some .paren
  | '[' => some .bracket
  | '\x7b' => some .brace
  | _ => none

/-- The delimiter that a character closes. -/
def closes? : Char → Option Delimiter
  | ')' => some .paren
  | ']' => some .bracket
  | '\x7d' => some .brace
  | _ => none

/-- Whether every carriage return stands before a line feed. -/
def hasWholeLines : List Char → Bool
  | [] => true
  | '\r' :: '\n' :: s => hasWholeLines s
  | c :: s => c != '\r' && hasWholeLines s

/-- A line of documentation, and the text from the line feed on. -/
def docLine : List Char → List Char × List Char
  | [] => ([], [])
  | '\n' :: s => ([], '\n' :: s)
  | '\r' :: '\n' :: s => ([], '\n' :: s)
  | c :: s => let (line, rest) := docLine s; (c :: line, rest)

/-- The comment for documentation at the front of a text: whether it describes what it stands in,
its contents, and the text behind it. -/
def docComment? (s : List Char) : Option (Bool × List Char × List Char) :=
  let inBlock (within : Bool) (t : List Char) :=
    (afterComment? 0 t).map fun rest => (within, t.take (t.length - rest.length - 2), rest)
  let found? := match s with
    | '/' :: '/' :: '!' :: t => some (true, docLine t)
    | '/' :: '*' :: '!' :: t => inBlock true t
    | '/' :: '/' :: '/' :: t => if t.head? = some '/' then none else some (false, docLine t)
    | '/' :: '*' :: '*' :: t => if t.head? = some '*' then none else inBlock false t
    | _ => none
  found?.filter fun (_, contents, _) => hasWholeLines contents

/-- A comment for documentation as an attribute. -/
def docAttribute (within : Bool) (contents : List Char) : List Lexeme :=
  [.sign '#' false] ++ (if within then [.sign '!' false] else []) ++
    [.group .bracket [.word "doc", .sign '=' false, .literal (quoted (String.ofList contents))]]

/-- The lexemes up to the end of the group, or of the text. -/
def lexUpTo (close : Option Delimiter) : Nat → List Char → Option (List Lexeme × List Char)
  | 0, _ => none
  | n + 1, s =>
    match skipTrivia s.length s with
    | [] => if close.isNone then some ([], []) else none
    | c :: t => do
      match docComment? (c :: t) with
      | some (within, contents, rest) =>
        let (more, rest) ← lexUpTo close n rest
        return (docAttribute within contents ++ more, rest)
      | none =>
        match if unreadable.isPrefixOf (c :: t) then none else opens? c with
        | some d =>
          let (body, rest) ← lexUpTo (some d) n t
          let (more, rest) ← lexUpTo close n rest
          return (.group d body :: more, rest)
        | none =>
          match closes? c with
          | some d => if close = some d then some ([], t) else none
          | none =>
            let (x, rest) ← leaf? (c :: t)
            let (more, rest) ← lexUpTo close n rest
            return (x :: more, rest)

/-- **The lexemes of a text.** A byte order mark at its start is passed over. -/
def lex? (text : String) : Option (List Lexeme) :=
  let s := match text.toList with
    | c :: s => if c.toNat = 0xFEFF then s else c :: s
    | [] => []
  (lexUpTo none (s.length + 1) s).map Prod.fst

/-! ## Identifiers -/

/-- Words that are no identifiers. -/
def keywords : List String :=
  ["abstract", "as", "async", "await", "become", "box", "break", "const", "continue", "crate",
    "do", "dyn", "else", "enum", "extern", "false", "final", "fn", "for", "if", "impl", "in",
    "let", "loop", "macro", "match", "mod", "move", "mut", "override", "priv", "pub", "ref",
    "return", "Self", "self", "static", "struct", "super", "trait", "true", "try", "type",
    "typeof", "unsafe", "unsized", "use", "virtual", "where", "while", "yield"]

/-- Whether a word is an identifier. -/
def isPlainWord (w : String) : Bool := w != "_" && !keywords.contains w

/-- **Whether a text is one identifier**, blanks and comments around it aside. -/
def isIdentifier (text : String) : Bool :=
  match lex? text with
  | some [.word w] => isPlainWord w
  | _ => false

/-- An identifier as a token, which it is only without anything around it. -/
def identToken? (name : String) : Option Token :=
  match afterAnyIdent? name.toList with
  | some [] => some (.unit name)
  | _ => none

end GrammarKit.Code
