/-!
# Lines of a text

* `linesOf`: the lines, each with the line feed that ends it.
* `lines`: the lines without what ends them.
-/

namespace GrammarKit.Text

/-- The lines of a text, each with the line feed that ends it. -/
def linesOf : List Char → List (List Char)
  | [] => []
  | c :: s =>
    if c = '\n' then [c] :: linesOf s
    else match linesOf s with
      | [] => [[c]]
      | line :: lines => (c :: line) :: lines

/-- A line without the line feed that ends it and a carriage return in front of that. -/
def dropLineEnd (line : List Char) : List Char :=
  match line.reverse with
  | '\n' :: '\r' :: s => s.reverse
  | '\n' :: s => s.reverse
  | _ => line

/-- The lines of a text without what ends them. -/
def lines (s : List Char) : List (List Char) := (linesOf s).map dropLineEnd

end GrammarKit.Text
