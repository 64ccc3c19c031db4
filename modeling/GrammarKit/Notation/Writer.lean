import GrammarKit.Notation.Lexeme

/-!
# Writing models

A model is written as a row of lexemes, and a row of lexemes can be laid out in many ways: blanks
and comments may stand in front of each lexeme and behind the last one.

* `Sign`, `Lexeme`: the words, signs and texts of the notation, and the lines of a description.
* `Model.lexemes`: the lexemes of a model.
* `IsGap`, `Between`, `Laid`: what may stand between lexemes, and texts that lay out a row of them.
* `Model.IsWritable`: models that can be written.
-/

namespace GrammarKit.Notation

open Text

/-! ## Lexemes -/

/-- The signs of the notation. -/
inductive Sign where
  | equals
  | bar
  | colon
  | semicolon
deriving Repr, DecidableEq

/-- A sign as it is written. -/
def Sign.char : Sign → Char
  | equals => '='
  | bar => '|'
  | colon => ':'
  | semicolon => ';'

/-- **The pieces of the notation.** -/
inductive Lexeme where
  | word (name : String)
  | sign (c : Sign)
  /-- A text between quotes. -/
  | quoted (text : String)
  /-- A regular expression between slashes. -/
  | slashed (source : String)
  /-- A line of a description. -/
  | line (text : List Char)
deriving Repr, DecidableEq

/-- A character between quotes. -/
def quotedChar (c : Char) : List Char := if c = '"' ∨ c = '\\' then ['\\', c] else [c]

/-- A character between slashes. -/
def slashedChar (c : Char) : List Char := if c = '/' then ['\\', c] else [c]

/-- A lexeme as it is written. -/
def Lexeme.text : Lexeme → List Char
  | word name => name.toList
  | sign c => [c.char]
  | quoted text => '"' :: (text.toList.flatMap quotedChar ++ ['"'])
  | slashed source => '/' :: (source.toList.flatMap slashedChar ++ ['/'])
  | line text => '/' :: '/' :: '/' :: ' ' :: (text ++ ['\n'])

/-! ## Layout -/

/-- **Blanks and comments.** A comment ends with its line and does not start with a third slash. -/
inductive IsGap : List Char → Prop where
  | nil : IsGap []
  | blank {c : Char} {g : List Char} : isBlank c = true → IsGap g → IsGap (c :: g)
  | comment {text g : List Char} : text.head? ≠ some '/' → '\n' ∉ text → '\r' ∉ text → IsGap g →
      IsGap ('/' :: '/' :: (text ++ '\n' :: g))

/-- **What may stand between two lexemes**: something between words, and only blanks between the
lines of a description. -/
structure Between (prev : Option Lexeme) (next : Lexeme) (g : List Char) : Prop where
  isGap : IsGap g
  apart : ∀ x y, prev = some (.word x) → next = .word y → g ≠ []
  blank : ∀ x y, prev = some (.line x) → next = .line y → g.all isBlank = true

/-- **Texts that lay out a row of lexemes** behind the lexeme `prev`, if any. -/
inductive Laid : (prev : Option Lexeme) → List Lexeme → List Char → Prop where
  | nil {prev : Option Lexeme} {g : List Char} : IsGap g → Laid prev [] g
  | cons {prev : Option Lexeme} {l : Lexeme} {ls : List Lexeme} {g s : List Char} :
      Between prev l g → Laid (some l) ls s → Laid prev (l :: ls) (g ++ (l.text ++ s))

end GrammarKit.Notation

/-! ## Models -/

namespace GrammarKit

open Notation Text

/-- The lexeme of a pattern. -/
def Pattern.lexeme : Pattern → Lexeme
  | .literal text => .quoted text
  | .regex source => .slashed source

/-- The lexemes of an element. -/
def Element.lexemes (e : Element) : List Lexeme :=
  match e.property with
  | some property => [.word property, .sign .colon, .word e.target]
  | none => [.word e.target]

/-- The lexemes of what stands behind the equals sign. -/
def Body.lexemes : Body → List Lexeme
  | .token pattern => [pattern.lexeme]
  | .deduction elements => elements.flatMap Element.lexemes
  | .union [] => []
  | .union (first :: members) => .word first :: members.flatMap fun x => [.sign .bar, .word x]

/-- The lines of a description. -/
def descriptionLines (description : Option String) : List (List Char) :=
  match description with
  | some text => text.toList.splitOn '\n'
  | none => []

/-- The lexemes of a definition. -/
def Node.lexemes (name : String) (n : Node) : List Lexeme :=
  (descriptionLines n.description).map Lexeme.line ++
    (.word n.kind.word :: .word name :: .sign .equals :: (n.body.lexemes ++ [.sign .semicolon]))

/-- The lexemes of the version, which may be left out. -/
def Model.versionLexemes (m : Model) (versioned : Bool) : List Lexeme :=
  if versioned then [.word "version", .quoted m.version] else []

/-- **The lexemes of a model.** -/
def Model.lexemes (m : Model) (versioned : Bool) : List Lexeme :=
  .word "grammar" :: .word m.name :: (m.versionLexemes versioned ++
    (.word "start" :: .word m.start :: .sign .semicolon ::
      m.nodes.entries.flatMap fun e => e.2.lexemes e.1))

/-! ## Models that can be written -/

/-- Whether a regular expression can stand between slashes: a backslash never ends it and never
stands before a slash, and a line ends only behind a backslash. -/
def isSlashable : List Char → Bool
  | [] => true
  | [c] => c != '\\' && c != '\n'
  | c :: d :: s =>
    if c = '\\' then d != '/' && isSlashable s else c != '\n' && isSlashable (d :: s)

/-- What is asked of a node's body. -/
def Body.IsWritable : Body → Prop
  | .token (.literal _) => True
  | .token (.regex source) => source ≠ "" ∧ isSlashable source.toList = true
  | .deduction elements => ∀ e ∈ elements, isIdentifier e.target = true ∧
      ∀ property, e.property = some property → isIdentifier property = true
  | .union members => members ≠ [] ∧ ∀ x ∈ members, isIdentifier x = true

/-- What is asked of a node: no line of its description ends in white space. -/
structure Node.IsWritable (n : Node) : Prop where
  description : ∀ line ∈ descriptionLines n.description,
    '\r' ∉ line ∧ ∀ c, line.getLast? = some c → isWhiteSpace c = false
  body : n.body.IsWritable

/-- **Models that can be written.** -/
structure Model.IsWritable (m : Model) : Prop where
  name : isIdentifier m.name = true
  start : isIdentifier m.start = true
  nodes : ∀ e ∈ m.nodes.entries, isIdentifier e.1 = true ∧ e.2.IsWritable

end GrammarKit
