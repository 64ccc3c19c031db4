import GrammarKit.Text.Category

/-!
# Sets of characters

Properties of characters are defined from tables and from each other.

* `CharSet`: tables, and the two ways to combine sets.
* `CharSet.contains`: the code points of a set.
* `CharSet.ofCategories`: the characters of some general categories.
-/

namespace GrammarKit.Text

/-- **A set of code points.** -/
inductive CharSet where
  /-- The code points of a table. -/
  | table (blocks : List Block)
  /-- The code points of one set or the other. -/
  | either (left right : CharSet)
  /-- The code points of the first set that the second one lacks. -/
  | except (left right : CharSet)
deriving Repr, DecidableEq

namespace CharSet

/-- Whether a code point is in the set. -/
def contains : CharSet → Nat → Bool
  | table blocks, n => member blocks n
  | either left right, n => left.contains n || right.contains n
  | except left right, n => left.contains n && !right.contains n

/-- All code points. -/
def all : CharSet := table [⟨0, 0x10FFFF, 1⟩]

/-- The characters of all categories but the unassigned ones. -/
def assigned : CharSet := table (Category.assigned.flatMap Category.assignedBlocks)

/-- The characters of some categories. -/
def ofCategories (ks : List Category) : CharSet :=
  let known := table (ks.flatMap Category.assignedBlocks)
  if ks.contains .unassigned then either known (except all (either assigned surrogates)) else known
where
  /-- The code points that no character has. -/
  surrogates : CharSet := table (Category.assignedBlocks .surrogate)

end CharSet

end GrammarKit.Text
