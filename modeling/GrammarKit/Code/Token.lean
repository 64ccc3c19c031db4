import GrammarKit.Text.Classes

/-!
# Tokens of generated code

Generated code is a list of tokens; its text has one blank between any two of them.

* `Token`: a word, sign or literal, or a group between delimiters.
* `Token.renderAll`: the text of tokens.
* `words`: tokens from a text with blanks between them.
* `textLiteral`, `debugText`: texts between quotes.
-/

namespace GrammarKit.Code

/-- The delimiters of a group. -/
inductive Delimiter where
  | paren
  | bracket
  | brace
deriving Repr, DecidableEq

/-- **A token.** -/
inductive Token where
  | unit (text : String)
  | group (delimiter : Delimiter) (body : List Token)
deriving Repr

namespace Token

mutual

/-- The text of a token. -/
def render : Token → String
  | unit text => text
  | group .paren body => "(" ++ renderAll body ++ ")"
  | group .bracket body => "[" ++ renderAll body ++ "]"
  | group .brace [] => "\x7b \x7d"
  | group .brace (t :: body) => "\x7b " ++ renderAll (t :: body) ++ " \x7d"

/-- The text of tokens, with one blank between any two. -/
def renderAll : List Token → String
  | [] => ""
  | [t] => t.render
  | t :: u :: body => t.render ++ " " ++ renderAll (u :: body)

end

end Token

/-- The words of a text as tokens. -/
def words (s : String) : List Token :=
  ((s.toList.splitOn ' ').filter (· ≠ [])).map fun word => .unit (String.ofList word)

/-- Tokens between parentheses. -/
def paren (body : List Token) : List Token := [.group .paren body]

/-- Tokens between brackets. -/
def bracket (body : List Token) : List Token := [.group .bracket body]

/-- Tokens between braces. -/
def brace (body : List Token) : List Token := [.group .brace body]

/-- Lists of tokens with commas between them. -/
def commaSeparated : List (List Token) → List Token
  | [] => []
  | [ts] => ts
  | ts :: us :: rest => ts ++ .unit "," :: commaSeparated (us :: rest)

/-- Lists of tokens with a comma behind each. -/
def commaEnded (items : List (List Token)) : List Token :=
  items.flatMap fun ts => ts ++ [.unit ","]

/-! ## Texts between quotes -/

/-- A character by its number. -/
def numbered (c : Char) : String :=
  "\\u\x7b" ++ String.ofList (Nat.toDigits 16 c.toNat) ++ "\x7d"

/-- A character inside a text between quotes, other than NUL. Characters without a form of their
own are written by their numbers. -/
def escaped (c : Char) : String :=
  if c = '\t' then "\\t"
  else if c = '\r' then "\\r"
  else if c = '\n' then "\\n"
  else if c = '"' then "\\\""
  else if c = '\\' then "\\\\"
  else if Text.isExtender c || !Text.isPrintable c then numbered c
  else c.toString

/-- The characters of a code literal. NUL is written so that no digit behind it belongs to it. -/
def escapedText : List Char → String
  | [] => ""
  | c :: s =>
    (if c.toNat = 0 then
      match s with
      | d :: _ => if '0' ≤ d ∧ d ≤ '7' then "\\x00" else "\\0"
      | [] => "\\0"
    else escaped c) ++ escapedText s

/-- The literal of a text. -/
def quoted (s : String) : String := "\"" ++ escapedText s.toList ++ "\""

/-- A text as a literal of generated code. -/
def textLiteral (s : String) : Token := .unit (quoted s)

/-- A text between quotes in a message. -/
def debugText (s : String) : String :=
  "\"" ++ String.join (s.toList.map fun c => if c.toNat = 0 then "\\0" else escaped c) ++ "\""

end GrammarKit.Code
