import GrammarKit.Code.Reader

/-!
# Phrases

Types, patterns, expressions, blocks and items of code contain each other. A reader of one of them
is given a reader `inner` for the phrases inside it.

* `Phrase`: the kinds of phrases.
* `Reading`: the tokens of a phrase and its `Shape`.
* `attributes`, `innerAttributes`, `invocation`: what may stand at many phrases.
* `path`, `anyPath`: paths.
-/

namespace GrammarKit.Code

/-- **The kinds of phrases.** A type may be a sum of bounds or not, a pattern may have alternatives
or not, an expression or an operand may end in the fields of a structure or not, and a block may
start with attributes of its own or not. A line is an expression that a block ends. -/
inductive Phrase where
  | type (sum : Bool)
  | arguments
  | pattern (alternatives : Bool)
  | expression (fields : Bool)
  | operand (fields : Bool)
  | line
  | block (attributed : Bool)
  | item
  | importTree

/-- The shape of a phrase, as far as what may follow hangs on it. -/
inductive Shape where
  /-- One on which nothing hangs. -/
  | plain
  /-- A type that is a path of one segment. -/
  | segment
  /-- A type that is a longer path. -/
  | path
  /-- A type that is a single bound. -/
  | bound
  /-- A pattern that is a range without a start or an end. -/
  | openRange
  /-- An expression that is a range. -/
  | range
  /-- An expression that compares. -/
  | comparison
  /-- An expression that ends with a block and may be a statement. -/
  | block
  /-- An expression that invokes a macro. -/
  | invocation (delimiter : Delimiter)
deriving DecidableEq

/-- **What a reader of phrases gives.** -/
structure Reading where
  tokens : List Token
  shape : Shape := .plain

namespace Reader

/-- The tokens of what `read` reads. -/
def tokensOf (read : Reader Reading) : Reader (List Token) := do return (← read).tokens

/-- Tokens on whose shape nothing hangs. -/
def plainly (read : Reader (List Token)) : Reader Reading := do return { tokens := ← read }

/-- Tokens of a given shape. -/
def shaped (shape : Shape) (read : Reader (List Token)) : Reader Reading := do
  return { tokens := ← read, shape }

/-! ## Plain paths and invocations -/

/-- Whether the lexemes start with a word that may be a segment of a plain path. -/
def startsWithPathWord (xs : List Lexeme) : Bool :=
  startsWithIdent xs || startsWithWord ["super", "self", "Self", "crate"] xs

/-- A path without arguments. -/
def plainPath : Reader (List Token) :=
  let step : Reader (List Token) := do if startsWithPathWord (← get) then anyWord else failure
  inOrder [signIfAny "::", step, many (startsWith "::") (inOrder [sign "::", step])]

/-- A group with anything inside. -/
def anyGroup : Reader (List Token) := do
  match ← get with
  | .group d _ :: _ => inGroup d rest
  | _ => failure

/-- Whether the lexemes start with a group. -/
def startsWithAnyGroup : List Lexeme → Bool
  | .group .. :: _ => true
  | _ => false

/-- Whether a path has no arguments. -/
def isPlainPath (path : List Token) : Bool :=
  path.all fun
    | .unit s => s != "<"
    | .group .. => true

/-- Whether a path is the name of a macro that is invoked. -/
def isInvoked (path : List Token) (xs : List Lexeme) : Bool :=
  startsWithOnly "!" ["!="] xs && isPlainPath path

/-- The invocation of a macro behind its path. -/
def invocation (path : List Token) : Reader Reading := do
  let mark ← sign "!"
  let delimiter := match ← get with
    | .group d _ :: _ => d
    | _ => .paren
  shaped (.invocation delimiter) do return path ++ mark ++ (← anyGroup)

section Inner

variable (inner : Phrase → Reader Reading)

/-! ## Attributes -/

/-- The inside of an attribute: a path, and a group or a value behind it. -/
def attributeBody : Reader (List Token) := do
  let path ← if startsWithWord ["unsafe"] (← get) then anyWord else plainPath
  let startsWithAttribute (xs : List Lexeme) :=
    startsWith "#" xs && startsWithGroup .bracket (xs.drop 1)
  let value : Reader (List Token) := do
    if startsWithAttribute (← get) then failure else tokensOf (inner (.expression true))
  let more ← firstOf [
    (startsWithAnyGroup, anyGroup),
    (startsWithEquals, inOrder [sign "=", value]),
    (fun _ => true, pure [])]
  return path ++ more

/-- Attributes in front of a phrase. -/
def attributes : Reader (List Token) :=
  many (startsWith "#") (inOrder [sign "#", inGroup .bracket (attributeBody inner)])

/-- Attributes at the start of a block. -/
def innerAttributes : Reader (List Token) :=
  many (fun xs => startsWith "#" xs && startsWith "!" (xs.drop 1))
    (inOrder [sign "#", sign "!", inGroup .bracket (attributeBody inner)])

/-! ## Paths -/

/-- Where a path stands: only in a type do arguments follow a name at once. -/
inductive PathStyle where
  | type
  | value
deriving DecidableEq

/-- Whether the lexemes start with generic arguments. -/
def startsWithArguments (style : PathStyle) (xs : List Lexeme) : Bool :=
  style == .type && startsWithOnly "<" ["<=", "<<="] xs ||
    startsWith "::" xs && startsWith "<" (xs.drop 2)

/-- A segment of a path. -/
def segment (style : PathStyle) : Reader (List Token) := do
  if startsWithWord ["super", "self", "crate", "try"] (← get) then anyWord
  else
    let name ← if startsWithWord ["Self"] (← get) then anyWord else ident
    return name ++ (← whenever (startsWithArguments style) (tokensOf (inner .arguments)))

/-- Whether another segment follows. -/
def startsWithSegment (xs : List Lexeme) : Bool :=
  startsWith "::" xs && !startsWithGroup .paren (xs.drop 2)

/-- **A path.** -/
def path (style : PathStyle) : Reader Reading := do
  let colons ← signIfAny "::"
  let first ← segment inner style
  let more ← many startsWithSegment (inOrder [sign "::", segment inner style])
  let shape := if colons.isEmpty && more.isEmpty then .segment else .path
  return { tokens := colons ++ first ++ more, shape }

/-- A qualified path: `<T as Trait>::Name`. -/
def qualifiedPath (style : PathStyle) : Reader (List Token) :=
  let next : Reader (List Token) := inOrder [sign "::", segment inner style]
  inOrder [sign "<", tokensOf (inner (.type true)),
    whenever (startsWithWord ["as"]) (inOrder [word "as", tokensOf (path inner .type)]),
    sign ">", next, many (startsWith "::") next]

/-- A path, which may be qualified. -/
def anyPath (style : PathStyle) : Reader Reading := do
  if startsWith "<" (← get) then plainly (qualifiedPath inner style) else path inner style

/-- Whether the lexemes start with a path. -/
def startsWithPath (xs : List Lexeme) : Bool :=
  startsWithPathWord xs || startsWith "::" xs || startsWith "<" xs

end Inner

end Reader

end GrammarKit.Code
