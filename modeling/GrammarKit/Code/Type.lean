import GrammarKit.Code.Bound

/-!
# Types

* `functionType`, `pathType`, `parenthesizedType`: types that need a closer look.
* `typeOf`: any type.
-/

namespace GrammarKit.Code.Reader

variable (inner : Phrase → Reader Reading)

/-! ## Functions -/

/-- How a function is called: `extern "C"`. -/
def convention : Reader (List Token) :=
  whenever (startsWithWord ["extern"])
    (inOrder [word "extern", whenever startsWithText text])

/-- Whether the lexemes start with a name and a colon. -/
def startsWithName (names : List String) (xs : List Lexeme) : Bool :=
  (startsWithIdent xs || startsWithWord names xs) && startsWithColon (xs.drop 1)

/-- A parameter of a function type: a type, which may have a name. Only the first one may be
called `self`. -/
def typeParameter (isFirst : Bool) : Reader (List Token) :=
  let type := tokensOf (inner (.type true))
  firstOf [
    (fun xs => isFirst && startsWithWord ["mut"] xs && startsWithWord ["self"] (xs.drop 1),
      inOrder [word "mut", word "self",
        whenever (startsWith ":") (inOrder [sign ":", type])]),
    (startsWithName (if isFirst then ["_", "self"] else ["_"]),
      inOrder [anyWord, sign ":", type]),
    (fun _ => true, type)]

/-- The parameters of a function type, at most `n`. Three points stand for any others. -/
def typeParametersUpTo (isFirst : Bool) : Nat → Reader (List Token)
  | 0 => failure
  | n + 1 => do
    if (← get).isEmpty then return []
    let attrs ← attributes inner
    let isOpen (xs : List Lexeme) :=
      startsWith "..." xs || startsWithName ["_"] xs && startsWith "..." (xs.drop 2)
    if isOpen (← get) then
      return attrs ++ (← inOrder [
        whenever startsWithAnyWord (inOrder [anyWord, sign ":"]), sign "...", signIfAny ","])
    let parameter ← typeParameter inner isFirst
    if (← get).isEmpty then return attrs ++ parameter
    let comma ← sign ","
    return attrs ++ parameter ++ comma ++ (← typeParametersUpTo false n)

/-- **A function type.** -/
def functionType : Reader (List Token) :=
  let parameters : Reader (List Token) := do typeParametersUpTo inner true ((← get).length + 1)
  inOrder [wordIfAny "unsafe", convention, word "fn", inGroup .paren parameters,
    returned inner false]

/-! ## Paths and sums of bounds -/

/-- Whether the lexemes start with a function type. -/
def startsWithFunction (xs : List Lexeme) : Bool := startsWithWord ["fn", "unsafe", "extern"] xs

/-- **A type that starts with a path**: the path, an invocation, or a sum of bounds. A quantifier
may stand in front of a bound. -/
def pathType (quantifier : List Token) (sum : Bool) : Reader Reading := do
  if startsWith "<" (← get) then plainly (qualifiedPath inner .type)
  else
    let name ← path inner .type
    if isInvoked name.tokens (← get) then
      let call ← invocation name.tokens
      return { tokens := call.tokens }
    else if !quantifier.isEmpty || sum && startsWith "+" (← get) then
      let (_, more) ← if sum then moreBounds inner {} else pure (false, [])
      return {
        tokens := quantifier ++ name.tokens ++ more,
        shape := if more.isEmpty then .bound else .plain }
    else return name

/-- A quantified type: a function or a bound. -/
def quantifiedType (sum : Bool) : Reader Reading := do
  let q ← quantifier inner
  firstOf [
    (startsWithFunction, plainly do return q ++ (← functionType inner)),
    (startsWithPathWord, pathType inner q sum)]

/-- More bounds, each behind a plus sign, where none may be missing. -/
def furtherBounds : Reader (List Token) :=
  many (startsWith "+") (inOrder [sign "+", do return (← bound inner {}).2])

/-- The inside of a type between parentheses, with its shape. -/
def insideParentheses : Reader Reading := do
  if (← get).isEmpty then return { tokens := [] }
  else if startsWithLifetime (← get) then
    plainly (bounds inner { constants := true } true)
  else if startsWith "?" (← get) then
    let (_, ts) ← bound inner {}
    return { tokens := ts, shape := .segment }
  else
    let first ← inner (.type true)
    if startsWith "," (← get) then
      let comma ← sign ","
      plainly do return first.tokens ++ comma ++ (← items (tokensOf (inner (.type true))))
    else return first

/-- **A type between parentheses**: a tuple, a type, or the first of several bounds. -/
def parenthesizedType (sum : Bool) : Reader Reading := do
  match ← get with
  | .group .paren body :: xs =>
    match (insideParentheses inner).whole? body with
    | some inside =>
      set xs
      let group := [.group .paren inside.tokens]
      let isBound := inside.shape = .segment || inside.shape = .path || inside.shape = .bound
      let goesOn := startsWith "+" xs && (sum || startsWith "?" body)
      if isBound && goesOn then plainly do return group ++ (← furtherBounds inner)
      else if startsWith "?" body then return { tokens := group, shape := .bound }
      else return { tokens := group }
    | none => failure
  | _ => failure

/-! ## Any type -/

/-- The inside of a type between brackets: the elements, and for an array their number. -/
def insideBrackets : Reader (List Token) :=
  inOrder [tokensOf (inner (.type true)),
    whenever (startsWith ";") (inOrder [sign ";", tokensOf (inner (.expression true))])]

/-- A value behind a reference or a pointer. -/
def pointee : Reader (List Token) := tokensOf (inner (.type false))

/-- A type whose values have one of many types. -/
def dynamicType (sum : Bool) : Reader (List Token) := do
  let those := bounds inner { constants := true } sum
  if startsWith "*" ((← get).drop 1) then asWritten (inOrder [word "dyn", sign "*", those])
  else inOrder [word "dyn", those]

/-- **A type**, given whether it may be a sum of bounds. -/
def typeOf (sum : Bool) : Reader Reading :=
  firstOf [
    (startsWithWord ["for"], quantifiedType inner sum),
    (startsWithGroup .paren, parenthesizedType inner sum),
    (startsWithFunction, plainly (functionType inner)),
    (startsWithPath, pathType inner [] sum),
    (startsWithWord ["dyn"], plainly (dynamicType inner sum)),
    (startsWithGroup .bracket, plainly (inGroup .bracket (insideBrackets inner))),
    (startsWith "*", plainly (inOrder [sign "*", wordOf ["const", "mut"], pointee inner])),
    (startsWith "&", plainly (inOrder [sign "&", whenever startsWithLifetime lifetime,
      wordIfAny "mut", pointee inner])),
    (startsWith "!", plainly (sign "!")),
    (startsWithWord ["impl"], plainly (inOrder [word "impl",
      bounds inner { captures := true, constants := true } sum])),
    (startsWithWord ["_"], plainly anyWord),
    (startsWithLifetime, plainly (bounds inner { constants := true } true))]

end GrammarKit.Code.Reader
