import GrammarKit.Code.Phrase

/-!
# Bounds and generics

* `bound`, `bounds`: what a type has to satisfy.
* `arguments`: generic arguments of a path.
* `parameters`, `whereClause`: generic parameters of an item and their conditions.
-/

namespace GrammarKit.Code.Reader

variable (inner : Phrase → Reader Reading)

/-- What a function returns, if anything; the flag says whether it may be a sum of bounds. -/
def returned (sum : Bool) : Reader (List Token) :=
  whenever (startsWith "->") (inOrder [sign "->", tokensOf (inner (.type sum))])

/-- A constant as a generic argument. -/
def constant : Reader (List Token) :=
  firstOf [
    (startsWithLiteral, literal),
    (startsWithIdent, ident),
    (fun _ => true, tokensOf (inner (.block true)))]

/-! ## Bounds -/

/-- Whether the bounds of a parameter end here. -/
def startsWithEnd (xs : List Lexeme) : Bool :=
  xs.isEmpty || startsWith "," xs || startsWith ">" xs || startsWith "=" xs

/-- What may stand in a list of bounds besides traits and lifetimes: `use<…>` and `const`. -/
structure BoundStyle where
  captures : Bool := false
  constants : Bool := false

/-- One generic parameter, given a reader for bounds and whether it needs a name; the flag says
whether it is a lifetime. A colon without bounds is left out. -/
def parameterWith (bound : Reader (List Token)) (named : Bool) : Reader (Bool × List Token) := do
  let attrs ← attributes inner
  let bounded (read : Reader (List Token)) : Reader (List Token) :=
    whenever (startsWith ":") do
      let colon ← sign ":"
      let bs ← sumUntil startsWithEnd read
      return if bs.isEmpty then [] else colon ++ bs
  if startsWithLifetime (← get) then
    return (true, attrs ++ (← inOrder [lifetime, bounded lifetime]))
  else if startsWithWord ["const"] (← get) then
    return (false, attrs ++ (← inOrder [word "const", ident, sign ":",
      tokensOf (inner (.type true)),
      whenever (startsWith "=") (inOrder [sign "=", constant inner])]))
  else if !named && startsWithWord ["_"] (← get) then return (false, attrs ++ (← anyWord))
  else
    return (false, attrs ++ (← inOrder [ident, bounded bound,
      whenever (startsWith "=") (inOrder [sign "=", tokensOf (inner (.type true))])]))

/-- The arguments of a bound between parentheses, and what it returns. The colons that may stand
in front of them are left out. -/
def called : Reader (List Token) := do
  let isCall (xs : List Lexeme) := startsWithGroup .paren xs ||
    startsWith "::" xs && startsWithGroup .paren (xs.drop 2)
  whenever isCall do
    let _ ← signIfAny "::"
    inOrder [inGroup .paren (items (tokensOf (inner (.type true)))), returned inner false]

/-- A quantifier over parameters, given a reader for their bounds. -/
def quantifierWith (bound : Reader (List Token)) : Reader (List Token) := do
  let f ← word "for"
  let found ← entries (parameterWith inner bound true)
  return f ++ .unit "<" :: entryTokens true found ++ [.unit ">"]

/-- A trait, given a reader for bounds inside a quantifier. The flag says whether it is marked as
constant, and then it stays as it was written. -/
def traitWith (bound : Reader (List Token)) (style : BoundStyle) :
    Reader (Bool × List Token) := do
  let quantifier ← whenever (startsWithWord ["for"]) (quantifierWith inner bound)
  let constness ← firstOf [
    (startsWithGroup .bracket, inGroup .bracket (word "const")),
    (startsWithWord ["const"], word "const"),
    (fun _ => true, pure [])]
  if !constness.isEmpty && !style.constants then failure
  let mark ← signIfAny "?"
  if !mark.isEmpty && (!quantifier.isEmpty || startsWithWord ["for"] (← get)) then failure
  let name ← tokensOf (path inner .type)
  let hasArguments := match name.getLast? with
    | some (.unit ">") => true
    | _ => false
  let call ← if hasArguments then pure [] else called inner
  return (!constness.isEmpty, quantifier ++ constness ++ mark ++ name ++ call)

/-- The parameters that a type may capture: `use<'a, T>`. -/
def captured : Reader (List Token) :=
  let entry : Reader (Bool × List Token) := do
    if startsWithLifetime (← get) then return (true, ← lifetime)
    else if startsWithWord ["Self"] (← get) then return (false, ← anyWord)
    else return (false, ← ident)
  inOrder [word "use", angled entry]

/-- A bound, nested in quantifiers at most `n` times; the flag says whether it is a trait. -/
def boundUpTo (style : BoundStyle) : Nat → Reader (Bool × List Token)
  | 0 => failure
  | n + 1 => do
    let nested : Reader (List Token) := do
      return (← boundUpTo { constants := true } n).2
    if startsWithLifetime (← get) then return (false, ← lifetime)
    else if startsWithWord ["use"] (← get) then
      if style.captures then return (false, ← captured) else failure
    else
      let before ← get
      let (isWritten, tokens) ←
        if startsWithGroup .paren before then
          match before with
          | .group _ body :: after =>
            match (traitWith inner nested style).whole? body with
            | some (isWritten, tokens) =>
              set after
              pure (isWritten, [.group .paren tokens])
            | none => failure
          | _ => failure
        else traitWith inner nested style
      let used := before.take (before.length - (← get).length)
      return (true, if isWritten then written "" used else tokens)

/-- **A bound**: a lifetime, a list of captures or a trait. The flag says whether it is a trait. -/
def bound (style : BoundStyle) : Reader (Bool × List Token) := do
  boundUpTo inner style ((← get).length + 1)

/-- The tokens of a bound where traits may be constant. -/
def anyBound : Reader (List Token) := do return (← bound inner { constants := true }).2

/-- A quantifier over parameters. -/
def quantifier : Reader (List Token) := quantifierWith inner (anyBound inner)

/-- Whether the lexemes start with a bound. -/
def startsWithBound (style : BoundStyle) (xs : List Lexeme) : Bool :=
  startsWithAnyWord xs || startsWith "::" xs || startsWith "?" xs || startsWithLifetime xs ||
    startsWithGroup .paren xs ||
    style.constants && (startsWithGroup .bracket xs || startsWithWord ["const"] xs)

/-- More bounds, each behind a plus sign; the flag says whether one of them is a trait. -/
def moreBoundsUpTo (style : BoundStyle) : Nat → Reader (Bool × List Token)
  | 0 => return (false, [])
  | n + 1 => do
    if startsWith "+" (← get) then
      let plus ← sign "+"
      if startsWithBound style (← get) then
        let (isTrait, ts) ← bound inner style
        let (hasTrait, more) ← moreBoundsUpTo style n
        return (isTrait || hasTrait, plus ++ ts ++ more)
      else return (false, plus)
    else return (false, [])

/-- More bounds, each behind a plus sign. -/
def moreBounds (style : BoundStyle) : Reader (Bool × List Token) := do
  moreBoundsUpTo inner style (← get).length

/-- **Bounds that make up a type**, among which there has to be a trait. -/
def bounds (style : BoundStyle) (sum : Bool) : Reader (List Token) := do
  let (isTrait, first) ← bound inner style
  let (hasTrait, more) ← if sum then moreBounds inner style else pure (false, [])
  if isTrait || hasTrait then return first ++ more else failure

/-! ## Generic arguments -/

/-- A generic argument; the flag says whether it is a lifetime. A name may be bound to a value or
be followed by bounds. -/
def argument : Reader (Bool × List Token) := do
  let isConstant (xs : List Lexeme) := startsWithLiteral xs || startsWithGroup .brace xs
  let isLifetime (xs : List Lexeme) := startsWithLifetime xs && !startsWith "+" (xs.drop 1)
  if isLifetime (← get) then return (true, ← lifetime)
  else if isConstant (← get) then return (false, ← constant inner)
  else
    let type ← inner (.type true)
    let more ← whenever (fun _ => type.shape = .segment) <| firstOf [
      (startsWith "=", do
        let eq ← sign "="
        let value ← if isConstant (← get) then constant inner else tokensOf (inner (.type true))
        return eq ++ value),
      (startsWithColon, inOrder [sign ":",
        sumUntil (fun xs => startsWith "," xs || startsWith ">" xs) (anyBound inner)]),
      (fun _ => true, pure [])]
    return (false, type.tokens ++ more)

/-- **Generic arguments** of a path. -/
def arguments : Reader (List Token) := inOrder [signIfAny "::", angled (argument inner)]

/-! ## Generic parameters -/

/-- **Generic parameters**; a list without any is left out. -/
def parameters : Reader (List Token) := whenever (startsWith "<") do
  let found ← entries (parameterWith inner (anyBound inner) false)
  return if found.isEmpty then [] else .unit "<" :: lifetimesFirst found ++ [.unit ">"]

/-- Whether a condition on parameters, or a list of them, ends here. -/
def startsAfterConditions (xs : List Lexeme) : Bool :=
  xs.isEmpty || startsWithGroup .brace xs || startsWith "," xs || startsWith ";" xs ||
    startsWithColon xs || startsWith "=" xs

/-- A condition on parameters. -/
def condition : Reader (List Token) := do
  if startsWithLifetime (← get) && startsWith ":" ((← get).drop 1) then
    inOrder [lifetime, sign ":", sumUntil startsAfterConditions lifetime]
  else
    inOrder [whenever (startsWithWord ["for"]) (quantifier inner),
      tokensOf (inner (.type true)), sign ":", sumUntil startsAfterConditions (anyBound inner)]

/-- Conditions with commas between them, at most `n`. -/
def conditionsUpTo : Nat → Reader (List Token)
  | 0 => return []
  | n + 1 => do
    if startsAfterConditions (← get) then return []
    let first ← condition inner
    if startsWith "," (← get) then
      let comma ← sign ","
      return first ++ comma ++ (← conditionsUpTo n)
    else return first

/-- **The conditions on parameters**; an empty list of them is left out. -/
def whereClause : Reader (List Token) := whenever (startsWithWord ["where"]) do
  let w ← word "where"
  let found ← conditionsUpTo inner (← get).length
  return if found.isEmpty then [] else w ++ found

end GrammarKit.Code.Reader
