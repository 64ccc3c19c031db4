import GrammarKit.Text.Property

/-!
# Character classes

The classes of characters that names, blanks and quoted text are made of.

* `isBlank`: blanks of the model notation and of grammar texts.
* `isWhiteSpace`, `trim`, `trimEnd`: white space of any script.
* `isAlphabetic`, `isAlphanumeric`: letters, and letters with numbers.
* `isNameStart`, `isNamePart`: characters of identifiers.
* `isPrintable`, `isExtender`: characters that quoted text may show as they are.
-/

namespace GrammarKit.Text

/-- Space, tab, carriage return and line feed. -/
def isBlank (c : Char) : Bool := c == ' ' || c == '\t' || c == '\r' || c == '\n'

/-- Whether a character is white space of any script. -/
def isWhiteSpace (c : Char) : Bool := member whiteSpace c.toNat

/-- The text without the white space at its end. -/
def trimEnd (s : List Char) : List Char := (s.reverse.dropWhile isWhiteSpace).reverse

/-- The text without the white space at its start. -/
def trimStart (s : List Char) : List Char := s.dropWhile isWhiteSpace

/-- The text without the white space around it. -/
def trim (s : List Char) : List Char := trimEnd (trimStart s)

/-- Alphabetic characters. -/
def isAlphabetic (c : Char) : Bool := alphabetic.contains c.toNat

/-- Alphabetic characters and numbers. -/
def isAlphanumeric (c : Char) : Bool := isAlphabetic c || isOf Category.numbers c

/-- Characters that identifiers have although they are not assigned yet. -/
def newLetters : List Block := blocks "558 208F"

/-- Characters that may start an identifier, the underscore apart. -/
def isNameStart (c : Char) : Bool := xidStart.contains c.toNat || member newLetters c.toNat

/-- Characters that may continue an identifier. -/
def isNamePart (c : Char) : Bool := xidContinue.contains c.toNat || member newLetters c.toNat

/-- Characters with a visible form, and the space. -/
def isPrintable (c : Char) : Bool :=
  c == ' ' || (isOf (Category.letters ++ Category.marks ++ Category.numbers ++
    Category.punctuation ++ Category.symbols) c && !defaultIgnorable.contains c.toNat)

/-- Characters that combine with the one before them. -/
def isExtender (c : Char) : Bool := graphemeExtend.contains c.toNat

end GrammarKit.Text
