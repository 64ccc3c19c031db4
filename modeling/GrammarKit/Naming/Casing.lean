import GrammarKit.Text.LetterCase

/-!
# Cases of names

* `pascalCase`: `binary_expression` becomes `BinaryExpression`.
* `snakeCase`: `HTTPRequest` becomes `http_request`.
-/

namespace GrammarKit

open Text

/-- Whether a character separates the words of a name. -/
def separatesWords (c : Char) : Bool := c == '_' || c == '-' || c == ' '

/-- The characters of a name in which every word starts in upper case; the flag says whether a
word starts here. -/
def pascalChars : Bool → List Char → List Char
  | _, [] => []
  | start, c :: s =>
    if separatesWords c then pascalChars true s
    else (if start then toUpper c else [c]) ++ pascalChars false s

/-- **The words of a name joined**, each of them starting in upper case. -/
def pascalCase (name : String) : String := String.ofList (pascalChars true name.toList)

/-- Whether a new word starts at `c`, which stands between `before` and `after`. -/
def startsWord (before c : Char) (after : Option Char) : Bool :=
  isUpper c && (isLower before || before.isDigit || (isUpper before && after.any isLower))

/-- `written` with the characters behind `before` in lower case, and an underscore in front of every
new word, unless one was written last. -/
def snakeOnto (written : List Char) : Char → List Char → List Char
  | _, [] => written
  | before, c :: s =>
    let gap := if startsWord before c s.head? && written.getLast? ≠ some '_' then ['_'] else []
    snakeOnto (written ++ gap ++ toLower c) c s

/-- The characters of a name in lower case, its words separated by underscores. -/
def snakeChars : List Char → List Char
  | [] => []
  | c :: s => snakeOnto (toLower c) c s

/-- **A name in lower case**, its words separated by underscores. -/
def snakeCase (name : String) : String := String.ofList (snakeChars name.toList)

end GrammarKit
