/-!
# Sets of code points

Character properties are tables of code points. A table is written as text: blocks separated by
blanks and line feeds, each a first and a last code point in hexadecimal, with `/2` behind a
block that holds every second code point only.

* `Block`, `Block.parse`: one block and its reading.
* `blocks`: the blocks of a written table.
* `member`: whether a code point lies in one of the blocks.
-/

namespace GrammarKit.Text

/-- The code points `first`, `first + step`, … up to `last`. -/
structure Block where
  first : Nat
  last : Nat
  step : Nat
deriving Repr, DecidableEq

/-- The value of a hexadecimal digit. -/
def hexValue? (c : Char) : Option Nat :=
  if '0' ≤ c ∧ c ≤ '9' then some (c.toNat - '0'.toNat)
  else if 'a' ≤ c ∧ c ≤ 'f' then some (c.toNat - 'a'.toNat + 10)
  else if 'A' ≤ c ∧ c ≤ 'F' then some (c.toNat - 'A'.toNat + 10)
  else none

/-- The number that hexadecimal digits write; other characters count as zero. -/
def hexNumber (digits : List Char) : Nat :=
  digits.foldl (fun n c => 16 * n + (hexValue? c).getD 0) 0

/-- The pieces of a text between the separators. -/
def splitAt (sep : Char) : List Char → List (List Char)
  | [] => [[]]
  | c :: s =>
    if c = sep then [] :: splitAt sep s
    else match splitAt sep s with
      | piece :: pieces => (c :: piece) :: pieces
      | [] => [[c]]

namespace Block

/-- Whether `n` is one of the block's code points. -/
def contains (b : Block) (n : Nat) : Bool :=
  b.first ≤ n && n ≤ b.last && (n - b.first) % b.step == 0

/-- Reads `41-5A`, `AA` or `100-12E/2`. -/
def parse (s : List Char) : Block :=
  let (range, step) := match splitAt '/' s with
    | [range, step] => (range, hexNumber step)
    | _ => (s, 1)
  match splitAt '-' range with
  | [first, last] => ⟨hexNumber first, hexNumber last, step⟩
  | _ => ⟨hexNumber range, hexNumber range, step⟩

/-- The block as closed intervals. -/
def intervals (b : Block) : List (Nat × Nat) :=
  if b.step ≤ 1 then [(b.first, b.last)]
  else (List.range ((b.last - b.first) / b.step + 1)).map fun k =>
    (b.first + k * b.step, b.first + k * b.step)

end Block

/-- The entries of a written table, which blanks and line feeds separate. -/
def tableEntries (table : String) : List (List Char) :=
  ((splitAt '\n' table.toList).flatMap (splitAt ' ')).filter (· ≠ [])

/-- The blocks of a written table. -/
def blocks (table : String) : List Block := (tableEntries table).map Block.parse

/-- Whether a code point lies in one of the blocks. -/
def member (table : List Block) (n : Nat) : Bool := table.any (·.contains n)

end GrammarKit.Text
