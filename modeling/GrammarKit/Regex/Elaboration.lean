import GrammarKit.Regex.Basic
import GrammarKit.Regex.Property
import GrammarKit.Regex.Reader

/-!
# From written to simplified regular expressions

Flags change how what follows them is understood, up to the end of the group they stand in. The
text is taken as bytes unless a flag says otherwise.

* `Mode`, `Mode.apply`: the state of the flags.
* `ClassSet.bytes`, `ClassSet.chars`: the members of a written class.
* `Ast.elaborate`: the expression that is meant.
* `Regex.parse`: the expression that a text writes.
-/

namespace GrammarKit.Regex

open Text

/-- The state of the flags. -/
structure Mode where
  caseInsensitive : Bool := false
  multiLine : Bool := false
  dotMatchesNewLine : Bool := false
  swapGreed : Bool := false
  unicode : Bool := false
  crlf : Bool := false
deriving Repr

/-- The mode after some flags were set. -/
def Mode.apply (m : Mode) (flags : Flags) : Mode where
  caseInsensitive := (flags.state? .caseInsensitive).getD m.caseInsensitive
  multiLine := (flags.state? .multiLine).getD m.multiLine
  dotMatchesNewLine := (flags.state? .dotMatchesNewLine).getD m.dotMatchesNewLine
  swapGreed := (flags.state? .swapGreed).getD m.swapGreed
  unicode := (flags.state? .unicode).getD m.unicode
  crlf := (flags.state? .crlf).getD m.crlf

/-! ## Classes -/

/-- The byte of a literal in a class of bytes: one written as a byte, or an ASCII character. -/
def Literal.classByte (l : Literal) : Except ReadError Nat :=
  if l.byte ∨ l.char.toNat < 0x80 then .ok l.char.toNat else .error .unicodeNotAllowed

/-- Case and negation of a class of bytes; case comes first. -/
def Mode.finishBytes (m : Mode) (negated : Bool) (s : Intervals) : Intervals :=
  let s := if m.caseInsensitive then s.foldBytes else s
  if negated then s.negateBytes else s

/-- Case and negation of a class of characters; case comes first. -/
def Mode.finishChars (m : Mode) (negated : Bool) (s : Intervals) : Intervals :=
  let s := if m.caseInsensitive then s.foldChars else s
  if negated then s.negateChars else s

/-- An operation on classes. -/
def SetOp.apply : SetOp → Intervals → Intervals → Intervals
  | .intersection => Intervals.inter
  | .difference => Intervals.diff
  | .symmetricDifference => Intervals.symmDiff

/-- The characters with a property, which have to be allowed. -/
def Mode.property (m : Mode) (query : PropertyQuery) (negated : Bool) :
    Except ReadError Intervals := do
  if m.unicode then return m.finishChars (negated != query.isExcluding) (← propertyChars query)
  else .error .unicodeNotAllowed

mutual

/-- The bytes of a class. -/
def ClassSet.bytes (m : Mode) : ClassSet → Except ReadError Intervals
  | .items items => ClassItem.bytes m items
  | .op kind left right => do
    let left ← left.bytes m
    let right ← right.bytes m
    if m.caseInsensitive then return kind.apply left.foldBytes right.foldBytes
    else return kind.apply left right

/-- The bytes of a part of a class. -/
def ClassItem.itemBytes (m : Mode) : ClassItem → Except ReadError Intervals
  | .literal l => do
    let n ← l.classByte
    return [(n, n)]
  | .range first last => do return [(← first.classByte, ← last.classByte)]
  | .ascii kind negated => .ok (m.finishBytes negated kind.bytes)
  | .escape kind negated => .ok (if negated then kind.bytes.negateBytes else kind.bytes)
  | .property query negated => m.property query negated
  | .nested negated set => do return m.finishBytes negated (← set.bytes m)

/-- The bytes of several parts. -/
def ClassItem.bytes (m : Mode) : List ClassItem → Except ReadError Intervals
  | [] => .ok []
  | item :: items => do return (← item.itemBytes m).union (← ClassItem.bytes m items)

end

mutual

/-- The characters of a class. -/
def ClassSet.chars (m : Mode) : ClassSet → Except ReadError Intervals
  | .items items => ClassItem.chars m items
  | .op kind left right => do
    let left ← left.chars m
    let right ← right.chars m
    if m.caseInsensitive then return kind.apply left.foldChars right.foldChars
    else return kind.apply left right

/-- The characters of a part of a class. -/
def ClassItem.itemChars (m : Mode) : ClassItem → Except ReadError Intervals
  | .literal l => .ok [(l.char.toNat, l.char.toNat)]
  | .range first last => .ok [(first.char.toNat, last.char.toNat)]
  | .ascii kind negated => .ok (m.finishChars negated kind.bytes)
  | .escape kind negated => .ok (if negated then kind.chars.negateChars else kind.chars)
  | .property query negated => m.property query negated
  | .nested negated set => do return m.finishChars negated (← set.chars m)

/-- The characters of several parts. -/
def ClassItem.chars (m : Mode) : List ClassItem → Except ReadError Intervals
  | [] => .ok []
  | item :: items => do return (← item.itemChars m).union (← ClassItem.chars m items)

end

/-! ## Expressions -/

/-- A literal. In a case-insensitive mode, what has another case is a class. -/
def Mode.literal (m : Mode) (l : Literal) : Regex :=
  let n := l.char.toNat
  if m.unicode then
    if m.caseInsensitive ∧ (foldClass n).length > 1 then
      .ofClass (.chars (Intervals.foldChars [(n, n)]))
    else .literal (encode [l.char])
  else if l.byte ∧ 0x7F < n then .literal [n.toUInt8]
  else if m.caseInsensitive ∧ l.char.isAlpha then
    .ofClass (.bytes (Intervals.foldBytes [(n, n)]))
  else .literal (encode [l.char])

/-- Any byte or character, without line ends unless the mode allows them. -/
def Mode.dot (m : Mode) : Regex :=
  let ends : Intervals :=
    if m.dotMatchesNewLine then [] else if m.crlf then [(0x0A, 0x0A), (0x0D, 0x0D)]
    else [(0x0A, 0x0A)]
  if m.unicode then .ofClass (.chars ends.negateChars) else .ofClass (.bytes ends.negateBytes)

/-- The place that an assertion asks for. Outside lines, only the ends of the text count. -/
def Mode.anchor (m : Mode) : Assertion → Anchor
  | .startLine => if m.multiLine then { place := .startLine, crlf := m.crlf }
    else { place := .startText }
  | .endLine => if m.multiLine then { place := .endLine, crlf := m.crlf }
    else { place := .endText }
  | .startText => { place := .startText }
  | .endText => { place := .endText }
  | a => { place := a, unicode := m.unicode }

mutual

/-- The expression that is meant, and the mode behind it. -/
def Ast.elaborate (m : Mode) : Ast → Except ReadError (Regex × Mode)
  | .empty => .ok (.empty, m)
  | .flags fs => .ok (.empty, m.apply fs)
  | .literal l => .ok (m.literal l, m)
  | .dot => .ok (m.dot, m)
  | .assertion a => .ok (.look (m.anchor a), m)
  | .escapeClass kind negated =>
    if m.unicode then
      .ok (.ofClass (.chars (if negated then kind.chars.negateChars else kind.chars)), m)
    else .ok (.ofClass (.bytes (if negated then kind.bytes.negateBytes else kind.bytes)), m)
  | .property query negated => do
    return (.ofClass (.chars (← m.property query negated)), m)
  | .bracketed negated set => do
    if m.unicode then return (.ofClass (.chars (m.finishChars negated (← set.chars m))), m)
    else return (.ofClass (.bytes (m.finishBytes negated (← set.bytes m))), m)
  | .repetition body least most greedy => do
    let (r, m) ← body.elaborate m
    return (r.repeated least most (greedy != m.swapGreed), m)
  | .group (.capture index) body => do
    let (r, _) ← body.elaborate m
    return (.capture index r, m)
  | .group (.flags fs) body => do
    let (r, _) ← body.elaborate (m.apply fs)
    return (r, m)
  | .alternation branches => do
    let (rs, m) ← Ast.elaborateAll m branches
    return (.ofBranches rs, m)
  | .concat parts => do
    let (rs, m) ← Ast.elaborateAll m parts
    return (.ofParts rs, m)

/-- Elaborates one after the other; flags reach from one to the next. -/
def Ast.elaborateAll (m : Mode) : List Ast → Except ReadError (List Regex × Mode)
  | [] => .ok ([], m)
  | a :: as => do
    let (r, m) ← a.elaborate m
    let (rs, m) ← Ast.elaborateAll m as
    return (r :: rs, m)

end

/-- **The regular expression that a text writes.** -/
def parse (source : String) : Except ReadError Regex := do
  let a ← Ast.parse source.toList
  return (← a.elaborate {}).1

end GrammarKit.Regex
