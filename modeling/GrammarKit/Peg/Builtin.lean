import GrammarKit.Peg.Definition
import GrammarKit.Text.Property
import GrammarKit.Text.Script

/-!
# Rules that every grammar has

* `asciiClass?`: classes of ASCII characters by name, which a grammar cannot redefine.
* `unicodeClass?`: classes of characters of any script, which a grammar can redefine.
* `isBuiltin`: whether a name needs no definition.
-/

namespace GrammarKit.Peg

open Text

/-- The class of ASCII characters of a name. -/
def asciiClass? (name : String) : Option (Char → Bool) :=
  match name with
  | "ASCII" => some fun c => c.toNat < 0x80
  | "ASCII_DIGIT" => some Char.isDigit
  | "ASCII_NONZERO_DIGIT" => some fun c => '1' ≤ c && c ≤ '9'
  | "ASCII_BIN_DIGIT" => some fun c => c == '0' || c == '1'
  | "ASCII_OCT_DIGIT" => some fun c => '0' ≤ c && c ≤ '7'
  | "ASCII_HEX_DIGIT" => some fun c => (hexValue? c).isSome
  | "ASCII_ALPHA_LOWER" => some Char.isLower
  | "ASCII_ALPHA_UPPER" => some Char.isUpper
  | "ASCII_ALPHA" => some Char.isAlpha
  | "ASCII_ALPHANUMERIC" => some Char.isAlphanum
  | _ => none

/-- The general categories of a name. -/
def categoryRule? (name : String) : Option (List Category) :=
  match name with
  | "LETTER" => some Category.letters
  | "CASED_LETTER" => some [.upperLetter, .lowerLetter, .titleLetter]
  | "UPPERCASE_LETTER" => some [.upperLetter]
  | "LOWERCASE_LETTER" => some [.lowerLetter]
  | "TITLECASE_LETTER" => some [.titleLetter]
  | "MODIFIER_LETTER" => some [.modifierLetter]
  | "OTHER_LETTER" => some [.otherLetter]
  | "MARK" => some Category.marks
  | "NONSPACING_MARK" => some [.nonspacingMark]
  | "SPACING_MARK" => some [.spacingMark]
  | "ENCLOSING_MARK" => some [.enclosingMark]
  | "NUMBER" => some Category.numbers
  | "DECIMAL_NUMBER" => some [.decimalNumber]
  | "LETTER_NUMBER" => some [.letterNumber]
  | "OTHER_NUMBER" => some [.otherNumber]
  | "PUNCTUATION" => some Category.punctuation
  | "CONNECTOR_PUNCTUATION" => some [.connectorPunctuation]
  | "DASH_PUNCTUATION" => some [.dashPunctuation]
  | "OPEN_PUNCTUATION" => some [.openPunctuation]
  | "CLOSE_PUNCTUATION" => some [.closePunctuation]
  | "INITIAL_PUNCTUATION" => some [.initialPunctuation]
  | "FINAL_PUNCTUATION" => some [.finalPunctuation]
  | "OTHER_PUNCTUATION" => some [.otherPunctuation]
  | "SYMBOL" => some Category.symbols
  | "MATH_SYMBOL" => some [.mathSymbol]
  | "CURRENCY_SYMBOL" => some [.currencySymbol]
  | "MODIFIER_SYMBOL" => some [.modifierSymbol]
  | "OTHER_SYMBOL" => some [.otherSymbol]
  | "SEPARATOR" => some Category.separators
  | "SPACE_SEPARATOR" => some [.spaceSeparator]
  | "LINE_SEPARATOR" => some [.lineSeparator]
  | "PARAGRAPH_SEPARATOR" => some [.paragraphSeparator]
  | "OTHER" => some [.control, .format, .privateUse, .unassigned]
  | "CONTROL" => some [.control]
  | "FORMAT" => some [.format]
  | "SURROGATE" => some [.surrogate]
  | "PRIVATE_USE" => some [.privateUse]
  | "UNASSIGNED" => some [.unassigned]
  | _ => none

/-- A name in upper case, as grammars write those of properties and scripts. -/
def shout (name : String) : String := String.ofList (name.toList.map Char.toUpper)

/-- The characters with a property of that name, or of the script of that name. -/
def namedChars? (name : String) : Option CharSet :=
  ((properties.find? fun p => shout p.name == name).map Property.chars) <|>
    (scripts.find? fun s => shout s.name == name).map Script.chars

/-- The class of characters of any script of that name. -/
def unicodeClass? (name : String) : Option (Char → Bool) :=
  ((categoryRule? name).map CharSet.ofCategories <|> namedChars? name).map fun s c =>
    s.contains c.toNat

/-- Names that a grammar uses without defining them, and cannot define. -/
def keywords : List String :=
  ["_", "ANY", "DROP", "EOI", "PEEK", "PEEK_ALL", "POP", "POP_ALL", "PUSH", "SOI"]

/-- Whether a name needs no definition. -/
def isBuiltin (name : String) : Bool :=
  name ∈ ["ANY", "DROP", "EOI", "PEEK", "PEEK_ALL", "POP", "POP_ALL", "SOI", "NEWLINE"] ||
    (asciiClass? name).isSome || (unicodeClass? name).isSome

end GrammarKit.Peg
