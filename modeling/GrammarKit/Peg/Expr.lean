import GrammarKit.Text.CodePoints

/-!
# Parsing expressions

The expressions of a grammar of the PEG kind, and their text.

* `Times`, `Expr`: expressions.
* `Expr.sequence`, `Expr.firstOf`: sequences and choices of any length.
* `quoteText`, `quoteChar`: texts and characters between quotes.
* `Expr.render`: the text of an expression, with parentheses where they are needed.
-/

namespace GrammarKit.Peg

/-- How often an expression is matched. -/
inductive Times where
  | optional
  | star
  | plus
  | exactly (n : Nat)
  | atLeast (n : Nat)
  | atMost (n : Nat)
  | between (least most : Nat)
deriving Repr, DecidableEq

/-- **A parsing expression.** -/
inductive Expr where
  /-- A text as it is. -/
  | text (s : String)
  /-- A text in upper or lower case. -/
  | anyCase (s : String)
  /-- One character between two others. -/
  | range (first last : Char)
  /-- What the rule of that name matches. -/
  | ref (name : String)
  /-- A slice of the stack of remembered texts. -/
  | peek (first : Int) (last : Option Int)
  /-- Remembers the text that the body matches. -/
  | push (body : Expr)
  /-- Looks ahead for the body. -/
  | ahead (body : Expr)
  /-- Looks ahead for the body not to match. -/
  | notAhead (body : Expr)
  /-- The body several times. -/
  | repeated (body : Expr) (times : Times)
  /-- One after the other. -/
  | seq (left right : Expr)
  /-- The left one, or else the right one. -/
  | choice (left right : Expr)
deriving Repr, DecidableEq, Inhabited

namespace Expr

/-! ## Sequences and choices -/

/-- The parts of a sequence. -/
def parts : Expr → List Expr
  | seq left right => left.parts ++ right.parts
  | e => [e]

/-- The branches of a choice. -/
def branches : Expr → List Expr
  | choice left right => left.branches ++ right.branches
  | e => [e]

/-- The sequence of the parts of all expressions, from left to right. -/
def sequence (es : List Expr) : Expr :=
  match es.flatMap parts with
  | [] => text ""
  | e :: es => es.foldl seq e

/-- The choice between the branches of all expressions, from left to right. -/
def firstOf (es : List Expr) : Expr :=
  match es.flatMap branches with
  | [] => text ""
  | e :: es => es.foldl choice e

end Expr

/-! ## Text -/

/-- Upper-case hexadecimal digits, at least four. -/
def hexDigits (n : Nat) : String :=
  let digits := (Nat.toDigits 16 n).map Char.toUpper
  String.ofList (List.replicate (4 - digits.length) '0' ++ digits)

/-- A character by its number. -/
def numberedChar (c : Char) : String := "\\u\x7b" ++ hexDigits c.toNat ++ "\x7d"

/-- Whether a character is printable ASCII. -/
def isPlain (c : Char) : Bool := ' ' ≤ c && c ≤ '~'

/-- A character inside quotes, the closing one of which is `quote`. -/
def quotedChar (quote c : Char) : String :=
  if c = quote ∨ c = '\\' then String.ofList ['\\', c]
  else if isPlain c then c.toString else numberedChar c

/-- A text between quotes. -/
def quoteText (s : String) : String :=
  "\"" ++ String.join (s.toList.map (quotedChar '"')) ++ "\""

/-- A character between quotes. -/
def quoteChar (c : Char) : String := "'" ++ quotedChar '\'' c ++ "'"

/-- The sign behind a repeated expression. -/
def Times.render : Times → String
  | optional => "?"
  | star => "*"
  | plus => "+"
  | exactly n => "\x7b" ++ toString n ++ "\x7d"
  | atLeast n => "\x7b" ++ toString n ++ ",\x7d"
  | atMost n => "\x7b, " ++ toString n ++ "\x7d"
  | between least most => "\x7b" ++ toString least ++ ", " ++ toString most ++ "\x7d"

namespace Expr

/-- How tightly an expression binds: choices, sequences, look-aheads, all else. -/
def strength : Expr → Nat
  | choice .. => 0
  | seq .. => 1
  | ahead _ | notAhead _ => 2
  | _ => 3

/-- The text between parentheses, if the expression binds less tightly than asked. -/
def guard (e : Expr) (least : Nat) (text : String) : String :=
  if e.strength < least then "(" ++ text ++ ")" else text

/-- A bound of a slice. -/
def renderBound (n : Int) : String :=
  if n < 0 then "-" ++ toString n.natAbs else toString n.natAbs

/-- The text of an expression. -/
def render : Expr → String
  | text s => quoteText s
  | anyCase s => "^" ++ quoteText s
  | range first last => quoteChar first ++ ".." ++ quoteChar last
  | ref name => name
  | peek first last =>
    "PEEK[" ++ renderBound first ++ ".." ++ ((last.map renderBound).getD "") ++ "]"
  | push body => "PUSH(" ++ body.render ++ ")"
  | ahead body => "&" ++ body.guard 2 body.render
  | notAhead body => "!" ++ body.guard 2 body.render
  | repeated body times => body.guard 3 body.render ++ times.render
  | seq left right => left.guard 1 left.render ++ " ~ " ++ right.guard 2 right.render
  | choice left right => left.render ++ " | " ++ right.guard 1 right.render

end Expr

end GrammarKit.Peg
