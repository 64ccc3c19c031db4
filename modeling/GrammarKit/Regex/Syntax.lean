/-!
# Regular expressions as written

What a regular expression says, before it is simplified.

* `Ast`: expressions with groups, flags and repetitions.
* `ClassSet`, `ClassItem`: classes between brackets.
* `Ast.depth`: how deeply an expression is nested.
* `ReadError`: why a text is no regular expression.
-/

namespace GrammarKit.Regex

/-- A character; `byte` tells one that was written as a byte, by two hexadecimal digits. -/
structure Literal where
  char : Char
  byte : Bool := false
deriving Repr, DecidableEq

/-- The classes named between colons. -/
inductive AsciiClass where
  | alnum | alpha | ascii | blank | cntrl | digit | graph | lower | print | punct | space
  | upper | word | xdigit
deriving Repr, DecidableEq

/-- The classes of one escape: digits, white space and word characters. -/
inductive EscapeClass where
  | digit | space | word
deriving Repr, DecidableEq

/-- How a class by property is asked for: by a name, or by a property and its value, which the
characters of the class have or, if it is `excluded`, have not. -/
inductive PropertyQuery where
  | named (name : String)
  | valued (name value : String) (excluded : Bool)
deriving Repr, DecidableEq

/-- Whether a query asks for the characters that have another value. -/
def PropertyQuery.isExcluding : PropertyQuery → Bool
  | named _ => false
  | valued _ _ excluded => excluded

/-- Operations on classes. -/
inductive SetOp where
  | intersection | difference | symmetricDifference
deriving Repr, DecidableEq

mutual

/-- One part of a class between brackets. -/
inductive ClassItem where
  | literal (l : Literal)
  | range (first last : Literal)
  | ascii (kind : AsciiClass) (negated : Bool)
  | escape (kind : EscapeClass) (negated : Bool)
  | property (query : PropertyQuery) (negated : Bool)
  | nested (negated : Bool) (set : ClassSet)

/-- The inside of a class between brackets. -/
inductive ClassSet where
  | items (items : List ClassItem)
  | op (kind : SetOp) (left right : ClassSet)

end

deriving instance Repr for ClassItem

instance : Inhabited ClassSet := ⟨.items []⟩

/-- Places in a text that match without taking any of it. -/
inductive Assertion where
  | startLine | endLine | startText | endText
  | wordBoundary | notWordBoundary | wordStart | wordEnd | wordStartHalf | wordEndHalf
deriving Repr, DecidableEq

/-- Switches that change how an expression is understood. -/
inductive Flag where
  | caseInsensitive | multiLine | dotMatchesNewLine | swapGreed | unicode | crlf
  | ignoreWhitespace
deriving Repr, DecidableEq

/-- Switches with their new state, in the order in which they were written. -/
abbrev Flags := List (Flag × Bool)

/-- The state that a list of switches gives to a flag. -/
def Flags.state? (flags : Flags) (f : Flag) : Option Bool :=
  (flags.find? fun e => e.1 = f).map Prod.snd

/-- What parentheses do besides grouping. -/
inductive GroupKind where
  | capture (index : Nat)
  | flags (flags : Flags)
deriving Repr, DecidableEq

/-- **A regular expression as written.** -/
inductive Ast where
  | empty
  | flags (flags : Flags)
  | literal (l : Literal)
  | dot
  | assertion (a : Assertion)
  | escapeClass (kind : EscapeClass) (negated : Bool)
  | property (query : PropertyQuery) (negated : Bool)
  | bracketed (negated : Bool) (set : ClassSet)
  | repetition (body : Ast) (least : Nat) (most : Option Nat) (greedy : Bool)
  | group (kind : GroupKind) (body : Ast)
  | alternation (branches : List Ast)
  | concat (parts : List Ast)
deriving Inhabited

namespace Ast

/-- Parts one after the other; one part stands for itself. -/
def ofParts : List Ast → Ast
  | [] => empty
  | [a] => a
  | parts => concat parts

end Ast

/-! ## Nesting -/

mutual

/-- The nesting of a class. -/
def ClassSet.depth : ClassSet → Nat
  | .items items => ClassItem.maxDepth items + (if items.length ≤ 1 then 0 else 1)
  | .op _ left right => max left.depth right.depth + 1

/-- The nesting of a part of a class. -/
def ClassItem.depth : ClassItem → Nat
  | .nested _ set => set.depth + 1
  | _ => 0

/-- The greatest nesting of several parts. -/
def ClassItem.maxDepth : List ClassItem → Nat
  | [] => 0
  | item :: items => max item.depth (ClassItem.maxDepth items)

end

mutual

/-- The nesting of an expression. -/
def Ast.depth : Ast → Nat
  | .bracketed _ set => set.depth + 1
  | .repetition body _ _ _ => body.depth + 1
  | .group _ body => body.depth + 1
  | .alternation branches => Ast.maxDepth branches + 1
  | .concat parts => Ast.maxDepth parts + 1
  | _ => 0

/-- The greatest nesting of several expressions. -/
def Ast.maxDepth : List Ast → Nat
  | [] => 0
  | a :: as => max a.depth (Ast.maxDepth as)

end

/-! ## Errors -/

/-- Why a text is no regular expression. -/
inductive ReadError where
  | classEscapeInvalid | classRangeInvalid | classRangeLiteral | classUnclosed
  | decimalEmpty | decimalInvalid
  | escapeHexEmpty | escapeHexInvalid | escapeHexInvalidDigit | escapeUnexpectedEnd
  | escapeUnrecognized
  | flagDanglingNegation | flagDuplicate | flagRepeatedNegation | flagUnexpectedEnd
  | flagUnrecognized
  | groupNameDuplicate | groupNameEmpty | groupNameInvalid | groupNameUnexpectedEnd
  | groupUnclosed | groupUnopened
  | nestedTooDeeply
  | repetitionCountInvalid | repetitionCountDecimalEmpty | repetitionCountUnclosed
  | repetitionMissing
  | wordBoundaryUnclosed | wordBoundaryUnrecognized | wordBoundaryUnexpectedEnd
  | unicodeClassInvalid | unsupportedBackreference | unsupportedLookAround
  | unicodeNotAllowed | propertyNotFound | propertyValueNotFound
deriving Repr, DecidableEq

/-- How deeply an expression may be nested. -/
def nestLimit : Nat := 250

/-- The wording of an error. -/
def ReadError.message : ReadError → String
  | classEscapeInvalid => "invalid escape sequence found in character class"
  | classRangeInvalid => "invalid character class range, the start must be <= the end"
  | classRangeLiteral => "invalid range boundary, must be a literal"
  | classUnclosed => "unclosed character class"
  | decimalEmpty => "decimal literal empty"
  | decimalInvalid => "decimal literal invalid"
  | escapeHexEmpty => "hexadecimal literal empty"
  | escapeHexInvalid => "hexadecimal literal is not a Unicode scalar value"
  | escapeHexInvalidDigit => "invalid hexadecimal digit"
  | escapeUnexpectedEnd => "incomplete escape sequence, reached end of pattern prematurely"
  | escapeUnrecognized => "unrecognized escape sequence"
  | flagDanglingNegation => "dangling flag negation operator"
  | flagDuplicate => "duplicate flag"
  | flagRepeatedNegation => "flag negation operator repeated"
  | flagUnexpectedEnd => "expected flag but got end of regex"
  | flagUnrecognized => "unrecognized flag"
  | groupNameDuplicate => "duplicate capture group name"
  | groupNameEmpty => "empty capture group name"
  | groupNameInvalid => "invalid capture group character"
  | groupNameUnexpectedEnd => "unclosed capture group name"
  | groupUnclosed => "unclosed group"
  | groupUnopened => "unopened group"
  | nestedTooDeeply =>
    "exceed the maximum number of nested parentheses/brackets (" ++ toString nestLimit ++ ")"
  | repetitionCountInvalid =>
    "invalid repetition count range, the start must be <= the end"
  | repetitionCountDecimalEmpty => "repetition quantifier expects a valid decimal"
  | repetitionCountUnclosed => "unclosed counted repetition"
  | repetitionMissing => "repetition operator missing expression"
  | wordBoundaryUnclosed =>
    "special word boundary assertion is either unclosed or contains an invalid character"
  | wordBoundaryUnrecognized =>
    "unrecognized special word boundary assertion, valid choices are: start, end, start-half " ++
      "or end-half"
  | wordBoundaryUnexpectedEnd =>
    "found either the beginning of a special word boundary or a bounded repetition on a \\b " ++
      "with an opening brace, but no closing brace"
  | unicodeClassInvalid => "invalid Unicode character class"
  | unsupportedBackreference => "backreferences are not supported"
  | unsupportedLookAround =>
    "look-around, including look-ahead and look-behind, is not supported"
  | unicodeNotAllowed => "Unicode not allowed here"
  | propertyNotFound => "Unicode property not found"
  | propertyValueNotFound => "Unicode property value not found"

end GrammarKit.Regex
