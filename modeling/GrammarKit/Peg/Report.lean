import GrammarKit.Peg.Definition
import GrammarKit.Text.Lines
import GrammarKit.Text.Position

/-!
# Reports that point into a text

A report names a place by line and column, shows its line, marks the place below it and says what
is wrong there.

* `Report`: a place or a piece of a text, with a message.
* `Report.render`: the report as text.
-/

namespace GrammarKit.Peg

open Text

/-- Where a report points, by the characters left there. -/
inductive Location where
  | place (left : Nat)
  | piece (span : Span)
deriving Repr, DecidableEq

/-- A message about a place in a text. -/
structure Report where
  location : Location
  message : String
deriving Repr, DecidableEq

/-- The line of `source` that holds the place behind its first `n` characters. -/
def lineAt (source : List Char) (n : Nat) : List Char :=
  lastLine (source.take n) ++ ((linesOf (source.drop n)).headD [])

/-- A line with its line breaks made visible. -/
def showBreaks (line : List Char) : List Char :=
  line.map fun c => if c = '\r' then '␍' else if c = '\n' then '␊' else c

/-- A line without its line breaks. -/
def dropBreaks (line : List Char) : List Char := line.filter fun c => c != '\r' && c != '\n'

/-- Whether a text starts with a line break. -/
def startsWithBreak (s : List Char) : Bool := s.head? == some '\n' || s.head? == some '\r'

/-- Blanks below the first `n` characters of a line; tabs stay. -/
def indentBelow (line : List Char) (n : Nat) : List Char :=
  (line.take n).map fun c => if c = '\t' then '\t' else ' '

/-- The marks below the columns from `start` to before `stop`. -/
def marks (start stop : Nat) : List Char :=
  if stop - start ≤ 1 then ['^'] else '^' :: (List.replicate (stop - start - 2) '-' ++ ['^'])

/-- A shown report: the place, the lines from there on, the marks and the message. The margin is as
wide as the largest line number, and a line number fills it from the right. -/
structure Layout where
  start : Position
  lastLine : Nat
  firstText : List Char
  lastText : Option (List Char)
  marks : List Char
  message : String

/-- The report as text. -/
def Layout.render (l : Layout) : String :=
  let width := (toString (max l.start.line l.lastLine)).length
  let margin := "".pushn ' ' width
  let numbered (n : Nat) (text : List Char) :=
    "".pushn ' ' (width - (toString n).length) ++ toString n ++ " | " ++ String.ofList text
  let later := match l.lastText with
    | none => []
    | some text =>
      (if l.start.line + 1 < l.lastLine then [margin ++ " | ..."] else []) ++
        [numbered l.lastLine text]
  "\n".intercalate
    ([margin ++ "--> " ++ toString l.start.line ++ ":" ++ toString l.start.column,
      margin ++ " |", numbered l.start.line l.firstText] ++ later ++
    [margin ++ " | " ++ String.ofList l.marks, margin ++ " |", margin ++ " = " ++ l.message])

/-- The layout of a report on a place. -/
def placeLayout (source : List Char) (left : Nat) (message : String) : Layout :=
  let n := source.length - left
  let start := Position.after (source.take n)
  let line := lineAt source n
  let text := if startsWithBreak (source.drop n) then showBreaks line else dropBreaks line
  { start
    lastLine := start.line
    firstText := text
    lastText := none
    marks := indentBelow text (start.column - 1) ++ ['^', '-', '-', '-']
    message }

/-- The end of a piece: behind a line feed, it is the place right behind that line's characters. -/
def endPosition (before : List Char) : Position :=
  let stop := Position.after before
  if stop.column = 1 ∧ before ≠ [] then
    let last := Position.after before.dropLast
    { last with column := last.column + 1 }
  else stop

/-- The lines that start no later than at `m`; the first of them starts at `n`. -/
def startingUpTo (m : Nat) : Nat → List (List Char) → List (List Char)
  | _, [] => []
  | n, line :: lines => if m < n then [] else line :: startingUpTo m (n + line.length) lines

/-- The lines that a piece touches, from `n` up to `m`: the first one whole, and those that start
no later than its end. -/
def touchedLines (source : List Char) (n m : Nat) : List (List Char) :=
  let first := lineAt source n
  let later := linesOf (source.drop (n - (lastLine (source.take n)).length + first.length))
  first :: startingUpTo m (n - (lastLine (source.take n)).length + first.length) later

/-- The layout of a report on a piece. -/
def pieceLayout (source : List Char) (span : Span) (message : String) : Layout :=
  let n := source.length - span.start
  let m := source.length - span.stop
  let start := Position.after (source.take n)
  let stop := endPosition (source.take m)
  let piece := (source.drop n).take (m - n)
  let visible := startsWithBreak piece || (2 ≤ piece.length && startsWithBreak piece.reverse)
  let lines := touchedLines source n m
  let first := lines.headD []
  let text := if visible then showBreaks first else dropBreaks first
  let last := lines.tail.getLast?
  let (a, b) := if stop.column < start.column then (stop.column - 1, start.column + 1)
    else (start.column, stop.column)
  { start
    lastLine := stop.line
    firstText := text
    lastText := last.map fun line => if visible then line else showBreaks line
    marks := indentBelow text (a - 1) ++ marks a b
    message }

/-- **The report as text.** -/
def Report.render (source : List Char) (r : Report) : String :=
  (match r.location with
    | .place left => placeLayout source left r.message
    | .piece span => pieceLayout source span r.message).render

end GrammarKit.Peg
