import GrammarKit.Code.Pattern
import GrammarKit.Code.Type

/-!
# Expressions

* `Precedence`, `operator?`: operators and how tightly they bind.
* `trailers`: calls, fields and indices behind an expression.
* `operators`: operators behind an operand.
* `atom`: expressions without operators.
* `operandOf`, `expressionOf`: operands and expressions.
* `lineExpression`: an expression at the start of a statement, where a block ends it.
-/

namespace GrammarKit.Code.Reader

/-! ## Operators -/

/-- **How tightly an operator binds**, the loosest first. -/
inductive Precedence where
  | none
  | assignment
  | range
  | disjunction
  | conjunction
  | comparison
  | union
  | difference
  | intersection
  | shift
  | sum
  | product
  | cast
deriving DecidableEq

/-- The place of a precedence in their order. -/
def Precedence.rank : Precedence → Nat
  | .none => 0
  | .assignment => 1
  | .range => 2
  | .disjunction => 3
  | .conjunction => 4
  | .comparison => 5
  | .union => 6
  | .difference => 7
  | .intersection => 8
  | .shift => 9
  | .sum => 10
  | .product => 11
  | .cast => 12

/-- The signs between two operands with their precedences, each before those that start it. -/
def binarySigns : List (String × Precedence) :=
  [("+=", .assignment), ("-=", .assignment), ("*=", .assignment), ("/=", .assignment),
    ("%=", .assignment), ("^=", .assignment), ("&=", .assignment), ("|=", .assignment),
    ("<<=", .assignment), (">>=", .assignment), ("&&", .conjunction), ("||", .disjunction),
    ("<<", .shift), (">>", .shift), ("==", .comparison), ("<=", .comparison), ("!=", .comparison),
    (">=", .comparison), ("+", .sum), ("-", .sum), ("*", .product), ("/", .product),
    ("%", .product), ("^", .difference), ("&", .intersection), ("|", .union), ("<", .comparison),
    (">", .comparison)]

/-- The sign between two operands that comes next. -/
def binarySign? (xs : List Lexeme) : Option (String × Precedence) :=
  binarySigns.find? fun (s, _) => startsWith s xs

/-- The precedence of the operator that comes next. -/
def nextPrecedence (xs : List Lexeme) : Precedence :=
  match binarySign? xs with
  | some (_, p) => p
  | none =>
    if startsWithEquals xs then .assignment
    else if startsWith ".." xs then .range
    else if startsWithWord ["as"] xs then .cast
    else .none

/-- The sign of a range. -/
def rangeMark : Reader (List Token) :=
  firstOf [(startsWith "..=", sign "..="), (startsWithOnly ".." ["..."], sign "..")]

/-! ## What comes next -/

/-- Whether an expression may start here. -/
def startsExpression (xs : List Lexeme) : Bool :=
  startsWithAnyWord xs && !startsWithWord ["as"] xs || startsWithAnyGroup xs ||
    startsWithLiteral xs || startsWithOnly "!" ["!="] xs || startsWithOnly "-" ["-=", "->"] xs ||
    startsWithOnly "*" ["*="] xs || startsWithOnly "|" ["|="] xs || startsWithOnly "&" ["&="] xs ||
    startsWith ".." xs || startsWithOnly "<" ["<=", "<<="] xs || startsWith "::" xs ||
    startsWithLifetime xs || startsWith "#" xs

/-- Whether a quantifier starts here, and no loop. -/
def startsWithQuantifier (xs : List Lexeme) : Bool :=
  startsWithWord ["for"] xs && startsWith "<" (xs.drop 1) &&
    (startsWithLifetime (xs.drop 2) || startsWith ">" (xs.drop 2))

/-- Whether a closure starts here. -/
def startsWithClosure (xs : List Lexeme) : Bool :=
  let second := xs.drop 1
  startsWith "|" xs || startsWithWord ["move", "static"] xs || startsWithQuantifier xs ||
    startsWithWord ["const"] xs && !startsWithGroup .brace second ||
    startsWithWord ["async"] xs && (startsWith "|" second || startsWithWord ["move"] second)

/-- Whether a block that runs later starts here. -/
def startsWithAsyncBlock (xs : List Lexeme) : Bool :=
  let second := xs.drop 1
  startsWithWord ["async"] xs && (startsWithGroup .brace second ||
    startsWithWord ["move"] second && startsWithGroup .brace (xs.drop 2))

/-- Whether a word and a block start here. -/
def startsWithBlockOf (w : String) (xs : List Lexeme) : Bool :=
  startsWithWord [w] xs && startsWithGroup .brace (xs.drop 1)

/-- Whether the end of a range is missing. -/
def startsBehindRange (fields : Bool) (xs : List Lexeme) : Bool :=
  xs.isEmpty || startsWithPoint xs || !fields && startsWithGroup .brace xs ||
    startsWithWord ["as"] xs ||
    [",", ";", "?", "=>", "=", "+", "/", "%", "^", ">", "<=", "!=", "-=", "*=", "&=", "|=",
      "<<="].any (startsWith · xs)

section Inner

variable (inner : Phrase → Reader Reading)

/-! ## Parts -/

/-- An expression. -/
def anyExpression : Reader (List Token) := tokensOf (inner (.expression true))

/-- An expression in front of a block. -/
def headExpression : Reader (List Token) := tokensOf (inner (.expression false))

/-- A block without attributes of its own. -/
def plainBlock : Reader (List Token) := tokensOf (inner (.block false))

/-- A block that may start with attributes. -/
def attributedBlock : Reader (List Token) := tokensOf (inner (.block true))

/-- A label of a loop or a block. -/
def label : Reader (List Token) := inOrder [lifetime, sign ":"]

/-! ## Branches and loops -/

/-- Branches on conditions, at most `n`. -/
def branchesUpTo : Nat → Reader (List Token)
  | 0 => failure
  | n + 1 => do
    let first ← inOrder [word "if", headExpression inner, plainBlock inner]
    if startsWithWord ["else"] (← get) then
      let other ← word "else"
      let more ← if startsWithWord ["if"] (← get) then branchesUpTo n else plainBlock inner
      return first ++ other ++ more
    else return first

/-- Branches on conditions. -/
def branches : Reader (List Token) := do branchesUpTo inner ((← get).length + 1)

/-- A loop. -/
def loop : Reader (List Token) :=
  firstOf [
    (startsWithWord ["while"], inOrder [anyWord, headExpression inner, attributedBlock inner]),
    (startsWithWord ["for"], inOrder [anyWord, alternatives inner, word "in", headExpression inner,
      attributedBlock inner]),
    (startsWithWord ["loop"], inOrder [anyWord, attributedBlock inner])]

/-- A loop or a block with a label. -/
def labelled : Reader (List Token) := do
  let name ← label
  return name ++ (← if startsWithGroup .brace (← get) then attributedBlock inner else loop inner)

/-! ## Behind an expression -/

/-- Whether something follows that belongs to the expression in front of it. -/
def startsWithTrailer (xs : List Lexeme) : Bool :=
  startsWithGroup .paren xs || startsWithGroup .bracket xs || startsWith "?" xs ||
    startsWithPoint xs

/-- The numbers of fields in a literal with points, and whether it ends with a point. -/
def fieldNumbers? (literal : String) : Option (List String × Bool) := do
  let parts := literal.splitOn "."
  let isOpen := parts.getLast? = some ""
  let numbers ← (if isOpen then parts.dropLast else parts).mapM (fieldNumber? ·.toList)
  return (numbers, isOpen)

/-- A method with its arguments, or a field. -/
def methodOrField : Reader (List Token) := do
  if startsWithWord ["await"] (← get) then anyWord
  else
    let isName := startsWithIdent (← get)
    let name ← member
    let generics ← whenever (fun xs => isName && startsWith "::" xs) do
      if startsWith "<" ((← get).drop 2) then tokensOf (inner .arguments) else failure
    let isCall (xs : List Lexeme) := !generics.isEmpty || isName && startsWithGroup .paren xs
    return name ++ generics ++
      (← whenever isCall (inGroup .paren (items (anyExpression inner))))

/-- What follows a point. A literal with points stands for several fields. -/
def selection : Reader (List Token) := do
  let point ← sign "."
  match ← get with
  | .literal s :: xs =>
    match fieldNumbers? s with
    | some (numbers, isOpen) =>
      set xs
      let fields := numbers.flatMap fun n => point ++ [.unit n]
      if isOpen then return fields ++ point ++ (← methodOrField inner) else return fields
    | none => failure
  | _ => return point ++ (← methodOrField inner)

/-- What follows an expression and belongs to it. -/
def trailer : Reader (List Token) :=
  firstOf [
    (startsWithGroup .paren, inGroup .paren (items (anyExpression inner))),
    (startsWithGroup .bracket, inGroup .bracket (anyExpression inner)),
    (startsWith "?", sign "?"),
    (startsWithPoint, selection inner)]

/-- An expression with all that follows and belongs to it. -/
def trailers (e : Reading) : Reader Reading := do
  if e.shape = .range then return e
  let more ← many startsWithTrailer (trailer inner)
  if more.isEmpty then return e else return { tokens := e.tokens ++ more }

/-! ## Expressions made with operators -/

/-- A side of an operator on which the other operators are read: to the right of an operand, those
that bind at least so tightly; in the right operand, those that bind more tightly. -/
inductive Side where
  | left (least : Precedence)
  | right (of : Precedence)

/-- What may not follow a cast. -/
def afterCast : Reader Unit := do if startsWithTrailer (← get) then failure

/-- The operators behind an expression, at most `n`, given a reader for operands. Comparisons are
not chained, and a range is no operand. -/
def operatorsUpTo (fields : Bool) (operand : Reader Reading) :
    Nat → Side → Reading → Reader Reading
  | 0, _, e => return e
  | n + 1, .right p, e => do
    let next := nextPrecedence (← get)
    if p.rank < next.rank || next = p && p = .assignment then
      let before := (← get).length
      let e ← operatorsUpTo fields operand n (.left next) e
      if (← get).length = before then return e else operatorsUpTo fields operand n (.right p) e
    else return e
  | n + 1, .left least, e => do
    let next := nextPrecedence (← get)
    if e.shape = .range || next = .none || next.rank < least.rank then return e
    else if next = .comparison && e.shape = .comparison then failure
    else if next = .cast then
      let cast ← inOrder [word "as", tokensOf (inner (.type false))]
      afterCast
      operatorsUpTo fields operand n (.left least) { tokens := e.tokens ++ cast }
    else if next = .range then
      let mark ← rangeMark
      if mark matches [.unit ".."] && startsBehindRange fields (← get) then
        return { tokens := e.tokens ++ mark, shape := .range }
      else
        let last ← operatorsUpTo fields operand n (.right .range) (← operand)
        return { tokens := e.tokens ++ mark ++ last.tokens, shape := .range }
    else
      let mark ← match binarySign? (← get) with
        | some (s, _) => sign s
        | none => sign "="
      let right ← operatorsUpTo fields operand n (.right next) (← operand)
      let shape := if next = .comparison then .comparison else .plain
      operatorsUpTo fields operand n (.left least)
        { tokens := e.tokens ++ mark ++ right.tokens, shape }

/-- Operators behind an expression. -/
def operators (fields : Bool) (operand : Reader Reading) (side : Side) (e : Reading) :
    Reader Reading := do
  operatorsUpTo inner fields operand (2 * (← get).length + 1) side e

/-! ## Expressions without operators -/

/-- A field of a structure with its value. -/
def fieldValue : Reader (List Token) := do
  let attrs ← attributes inner
  let isNumber := startsWithFieldNumber (← get)
  let name ← member
  return attrs ++ name ++ (← whenever (fun xs => isNumber || startsWith ":" xs)
    (inOrder [sign ":", anyExpression inner]))

/-- The fields of a structure, at most `n`. Two points stand in front of a structure that has the
others. -/
def fieldValuesUpTo : Nat → Reader (List Token)
  | 0 => failure
  | n + 1 => do
    if (← get).isEmpty then return []
    if startsWith ".." (← get) then
      inOrder [sign "..", whenever (!·.isEmpty) (anyExpression inner)]
    else
      let field ← fieldValue inner
      if (← get).isEmpty then return field
      let comma ← sign ","
      return field ++ comma ++ (← fieldValuesUpTo n)

/-- A path, an invocation or a structure. -/
def pathExpression (fields : Bool) : Reader Reading := do
  let name ← anyPath inner .value
  if name.shape ≠ .plain && isInvoked name.tokens (← get) then invocation name.tokens
  else if fields && startsWithGroup .brace (← get) then plainly do
    return name.tokens ++ (← inGroup .brace do fieldValuesUpTo inner ((← get).length + 1))
  else return { tokens := name.tokens }

/-- The inside of an array: its elements, or one of them and how often it stands there. -/
def arrayBody : Reader (List Token) := do
  if (← get).isEmpty then return []
  let first ← anyExpression inner
  if startsWith ";" (← get) then return first ++ (← inOrder [sign ";", anyExpression inner])
  else if (← get).isEmpty then return first
  else return first ++ (← inOrder [sign ",", items (anyExpression inner)])

/-- A parameter of a closure. -/
def closureParameter : Reader (List Token) :=
  inOrder [attributes inner, tokensOf (inner (.pattern false)),
    whenever (startsWith ":") (inOrder [sign ":", tokensOf (inner (.type true))])]

/-- A closure. -/
def closure (fields : Bool) : Reader (List Token) :=
  inOrder [whenever (startsWithWord ["for"]) (quantifier inner), wordIfAny "const",
    wordIfAny "static", wordIfAny "async", wordIfAny "move", sign "|",
    itemsUntil (startsWith "|") (closureParameter inner), sign "|",
    firstOf [
      (startsWith "->", inOrder [sign "->", tokensOf (inner (.type true)), plainBlock inner]),
      (fun _ => true, tokensOf (inner (.expression fields)))]]

/-- The end of a loop or a block, with its value. -/
def breakExpression (fields : Bool) : Reader (List Token) := do
  let isLabelled (xs : List Lexeme) := startsWithLifetime xs && startsWith ":" (xs.drop 1)
  let jump ← word "break"
  if isLabelled (← get) then failure
  let target ← whenever startsWithLifetime lifetime
  let hasValue (xs : List Lexeme) :=
    startsExpression xs && (fields || !startsWithGroup .brace xs)
  return jump ++ target ++ (← whenever hasValue (anyExpression inner))

/-- A pattern that a value has to match. -/
def matching (fields : Bool) : Reader (List Token) :=
  let operand := inner (.operand fields)
  inOrder [word "let", alternatives inner, sign "=",
    tokensOf do operators inner fields operand (.left .comparison) (← operand)]

/-- An arm of a choice. -/
def arm : Reader (List Token) := do
  let head ← inOrder [attributes inner, alternatives inner,
    whenever (startsWithWord ["if"]) (inOrder [word "if", anyExpression inner]), sign "=>"]
  let value ← inner .line
  let needsComma := value.shape ≠ .block && !(← get).isEmpty
  return head ++ value.tokens ++ (← if needsComma then sign "," else signIfAny ",")

/-- A choice by patterns. -/
def choice : Reader (List Token) :=
  inOrder [word "match", headExpression inner,
    inGroup .brace (inOrder [innerAttributes inner, many (!·.isEmpty) (arm inner)])]

/-- A range without a start. -/
def openRange (fields : Bool) : Reader (List Token) := do
  let mark ← rangeMark
  if mark matches [.unit ".."] && startsBehindRange fields (← get) then return mark
  else
    let operand := inner (.operand fields)
    let last ← operators inner fields operand (.right .range) (← operand)
    return mark ++ last.tokens

/-- Expressions with a block at their end. -/
def blockExpressions : List ((List Lexeme → Bool) × Reader Reading) :=
  [(startsWithWord ["if"], shaped .block (branches inner)),
    (fun xs => startsWithWord ["while", "loop"] xs ||
      startsWithWord ["for"] xs && !startsWithQuantifier xs, shaped .block (loop inner)),
    (startsWithWord ["match"], shaped .block (choice inner)),
    (startsWithBlockOf "try", shaped .block (inOrder [anyWord, plainBlock inner])),
    (startsWithWord ["unsafe"], shaped .block (inOrder [anyWord, attributedBlock inner])),
    (startsWithBlockOf "const", shaped .block (inOrder [anyWord, attributedBlock inner])),
    (startsWithGroup .brace, shaped .block (attributedBlock inner)),
    (startsWithLifetime, shaped .block (labelled inner))]

/-- **An expression without operators.** -/
def atom (fields : Bool) : Reader Reading :=
  firstOf <| [
    (startsWithLiteral, plainly literal),
    (startsWithAsyncBlock, plainly (inOrder [anyWord, wordIfAny "move", plainBlock inner])),
    (startsWithClosure, plainly (closure inner fields)),
    (fun xs => startsWithWord ["builtin"] xs && startsWith "#" (xs.drop 1), plainly <| asWritten <|
      inOrder [anyWord, sign "#", ident, inGroup .paren rest]),
    (fun xs => startsWithPath xs || startsWithWord ["try"] xs &&
      (startsWith "!" (xs.drop 1) || startsWith "::" (xs.drop 1)), pathExpression inner fields),
    (startsWithGroup .paren, plainly (inGroup .paren (items (anyExpression inner)))),
    (startsWithWord ["break"], plainly (breakExpression inner fields)),
    (startsWithWord ["continue"],
      plainly (inOrder [anyWord, whenever startsWithLifetime lifetime])),
    (startsWithWord ["return", "yield"], plainly (inOrder [anyWord,
      whenever startsExpression (anyExpression inner)])),
    (startsWithWord ["become"], plainly (asWritten (inOrder [anyWord, anyExpression inner]))),
    (startsWithGroup .bracket, plainly (inGroup .bracket (arrayBody inner))),
    (startsWithWord ["let"], plainly (matching inner fields)),
    (startsWith "..", shaped .range (openRange inner fields)),
    (startsWithWord ["_"], plainly anyWord)] ++ blockExpressions inner

/-! ## Any expression -/

/-- A sign in front of an operand. -/
def unarySign : Reader (List Token) :=
  firstOf [
    (startsWith "&", do
      let amp ← sign "&"
      let isRaw (xs : List Lexeme) :=
        startsWithWord ["raw"] xs && startsWithWord ["mut", "const"] (xs.drop 1)
      if isRaw (← get) then return amp ++ (← inOrder [anyWord, anyWord])
      else return amp ++ (← wordIfAny "mut")),
    (startsWith "*", sign "*"),
    (startsWith "!", sign "!"),
    (startsWith "-", sign "-")]

/-- Whether the lexemes start with a sign in front of an operand. -/
def startsWithUnary (xs : List Lexeme) : Bool := ["&", "*", "!", "-"].any (startsWith · xs)

/-- **An operand**: signs and attributes in front of an expression without operators, and what
follows it. -/
def operandOf (fields : Bool) : Reader Reading := do
  let attrs ← attributes inner
  if startsWithUnary (← get) then plainly do
    let mark ← unarySign
    return attrs ++ mark ++ (← inner (.operand fields)).tokens
  else
    let e ← trailers inner (← atom inner fields)
    if attrs.isEmpty then return e
    else if e.shape = .range then failure
    else return { e with tokens := attrs ++ e.tokens }

/-- **An expression**, given whether it may end in the fields of a structure. -/
def expressionOf (fields : Bool) : Reader Reading := do
  let operand := operandOf inner fields
  operators inner fields operand (.left .none) (← operand)

/-- **An expression at the start of a line**: a block ends it, unless a point or a question mark
follows. -/
def lineExpression : Reader Reading := do
  let attrs ← attributes inner
  let goOn (e : Reading) : Reader Reading :=
    operators inner true (operandOf inner true) (.left .none) e
  let xs ← get
  let e ←
    if (blockExpressions inner).any fun (test, _) => test xs then
      let e ← firstOf (blockExpressions inner)
      if startsWithPoint (← get) || startsWith "?" (← get) then goOn (← trailers inner e)
      else pure e
    else goOn (← operandOf inner true)
  return { e with tokens := attrs ++ e.tokens }

end Inner

end GrammarKit.Code.Reader
