import GrammarKit.Code.Bound

/-!
# Patterns

* `member`: the name or number of a field.
* `singlePattern`: a pattern without alternatives.
* `patternOf`: any pattern.
-/

namespace GrammarKit.Code.Reader

/-! ## Fields -/

/-- The value of a number without a suffix; underscores do not count. -/
def numberOf? (base : Nat) (digits : List Char) : Option Nat := do
  let values ← (digits.filter (· ≠ '_')).mapM fun c => (Text.hexValue? c).filter (· < base)
  if values.isEmpty then none else return values.foldl (fun n d => base * n + d) 0

/-- The number of a field from its literal, in decimal. -/
def fieldNumber? (digits : List Char) : Option String := do
  let n ← match digits with
    | '0' :: 'x' :: ds => numberOf? 16 ds
    | '0' :: 'o' :: ds => numberOf? 8 ds
    | '0' :: 'b' :: ds => numberOf? 2 ds
    | c :: _ => if c.isDigit then numberOf? 10 digits else none
    | [] => none
  if n < 4294967296 then return toString n else none

/-- Whether the lexemes start with the number of a field. -/
def startsWithFieldNumber : List Lexeme → Bool
  | .literal s :: _ => (fieldNumber? s.toList).isSome
  | _ => false

/-- The name or the number of a field. -/
def member : Reader (List Token) := do
  match ← get with
  | .literal s :: xs =>
    match fieldNumber? s.toList with
    | some n => set xs; return [.unit n]
    | none => failure
  | _ => ident

section Inner

variable (inner : Phrase → Reader Reading)

/-! ## Parts of patterns -/

/-- A pattern that may have alternatives. -/
def alternatives : Reader (List Token) := tokensOf (inner (.pattern true))

/-- The sign of a range in a pattern. Three points are an old form. -/
def rangeSign : Reader (List Token) :=
  firstOf [
    (startsWith "..=", sign "..="),
    (startsWith "...", do let _ ← sign "..."; return [.unit "..="]),
    (fun _ => true, sign "..")]

/-- Whether the end of a range is missing. -/
def startsAfterRange (xs : List Lexeme) : Bool :=
  xs.isEmpty || startsWith "|" xs || startsWith "=" xs || startsWithColon xs ||
    startsWith "," xs || startsWith ";" xs || startsWithWord ["if"] xs

/-- An end of a range. -/
def rangeEnd : Reader (List Token) :=
  firstOf [
    (startsWithLiteral, literal),
    (startsWithPath, tokensOf (anyPath inner .value)),
    (startsWithWord ["const"], inOrder [word "const", tokensOf (inner (.block true))])]

/-- A range behind its start, which may be missing. Only two points need no end. -/
def rangeFrom (start : List Token) : Reader Reading := do
  let isHalfOpen := startsWithOnly ".." ["..=", "..."] (← get)
  let mark ← rangeSign
  if startsAfterRange (← get) then
    if isHalfOpen then
      return {
        tokens := start ++ mark,
        shape := if start.isEmpty then .plain else .openRange }
    else failure
  else
    let last ← rangeEnd inner
    return {
      tokens := start ++ mark ++ last,
      shape := if start.isEmpty then .openRange else .plain }

/-- A field in a pattern for a structure. -/
def fieldPattern : Reader (List Token) := do
  if startsWithWord ["box", "ref", "mut"] (← get) then
    inOrder [wordIfAny "box", wordIfAny "ref", wordIfAny "mut", ident]
  else
    let isNumber := startsWithFieldNumber (← get)
    let name ← member
    return name ++ (← whenever (fun xs => isNumber || startsWith ":" xs)
      (inOrder [sign ":", alternatives inner]))

/-- The fields in a pattern for a structure, at most `n`. Two points stand for all others. -/
def fieldPatternsUpTo : Nat → Reader (List Token)
  | 0 => failure
  | n + 1 => do
    if (← get).isEmpty then return []
    let attrs ← attributes inner
    if startsWith ".." (← get) then return attrs ++ (← sign "..")
    let field ← fieldPattern inner
    if (← get).isEmpty then return attrs ++ field
    let comma ← sign ","
    return attrs ++ field ++ comma ++ (← fieldPatternsUpTo n)

/-- A pattern that starts with a path. -/
def pathPattern : Reader Reading := do
  let name ← anyPath inner .value
  if name.shape ≠ .plain && isInvoked name.tokens (← get) then
    plainly (tokensOf (invocation name.tokens))
  else firstOf [
    (startsWithGroup .brace, plainly do
      return name.tokens ++
        (← inGroup .brace do fieldPatternsUpTo inner ((← get).length + 1))),
    (startsWithGroup .paren, plainly do
      return name.tokens ++ (← inGroup .paren (items (alternatives inner)))),
    (startsWith "..", rangeFrom inner name.tokens),
    (fun _ => true, pure { tokens := name.tokens })]

/-- Whether a pattern starts with a path and is not just a name. -/
def startsWithPathPattern (xs : List Lexeme) : Bool :=
  let second := xs.drop 1
  startsWithIdent xs && (startsWith "::" second || startsWith "!" second ||
    startsWithGroup .brace second || startsWithGroup .paren second || startsWith ".." second) ||
  startsWithWord ["self"] xs && startsWith "::" second ||
  startsWith "::" xs || startsWith "<" xs || startsWithWord ["Self", "super", "crate"] xs

/-- A literal or a constant, or a range that starts with it. -/
def valuePattern : Reader Reading := do
  let start ← rangeEnd inner
  if startsWith ".." (← get) then rangeFrom inner start else return { tokens := start }

/-- A name, and a pattern for what it stands for. -/
def namePattern : Reader (List Token) := do
  let binding ← inOrder [wordIfAny "ref", wordIfAny "mut"]
  let name ← if startsWithWord ["self"] (← get) then anyWord else ident
  return binding ++ name ++ (← whenever (startsWith "@")
    (inOrder [sign "@", tokensOf (inner (.pattern false))]))

/-- An element of a slice, which is no range without a start or an end. -/
def elementPattern : Reader (List Token) := do
  let element ← inner (.pattern true)
  if element.shape = .openRange then failure else return element.tokens

/-! ## Any pattern -/

/-- A pattern without alternatives. -/
def singlePattern : Reader Reading :=
  firstOf [
    (startsWithPathPattern, pathPattern inner),
    (startsWithWord ["_"], plainly anyWord),
    (startsWithWord ["box"], plainly (asWritten (inOrder [anyWord,
      tokensOf (inner (.pattern false))]))),
    (fun xs => startsWith "-" xs || startsWithLiteral xs || startsWithWord ["const"] xs,
      valuePattern inner),
    (fun xs => startsWithWord ["ref", "mut", "self"] xs || startsWithIdent xs,
      plainly (namePattern inner)),
    (startsWith "&", plainly (inOrder [sign "&", wordIfAny "mut",
      tokensOf (inner (.pattern false))])),
    (startsWithGroup .paren, plainly (inGroup .paren (items (alternatives inner)))),
    (startsWithGroup .bracket, plainly (inGroup .bracket (items (elementPattern inner)))),
    (startsWithOnly ".." ["..."], rangeFrom inner [])]

/-- **A pattern**, given whether it may have alternatives. -/
def patternOf (alternatives : Bool) : Reader Reading := do
  let bar ← if alternatives then signIfAny "|" else pure []
  let first ← singlePattern inner
  let hasMore := startsWithOnly "|" ["||", "|="]
  if alternatives && (!bar.isEmpty || hasMore (← get)) then plainly do
    let more ← many hasMore (inOrder [sign "|", tokensOf (singlePattern inner)])
    return bar ++ first.tokens ++ more
  else return first

end Inner

end GrammarKit.Code.Reader
