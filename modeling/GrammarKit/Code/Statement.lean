import GrammarKit.Code.Item

/-!
# Statements

* `declaration`: names with their values.
* `statement`: any statement, with whether it needs a semicolon that it lacks.
* `blockOf`: a block of statements.
-/

namespace GrammarKit.Code.Reader

variable (inner : Phrase → Reader Reading)

/-- Whether tokens end with a block. -/
def endsWithBlock (tokens : List Token) : Bool :=
  match tokens.getLast? with
  | some (.group .brace _) => true
  | _ => false

/-- A declaration of names with their values. A block may say what happens if a value does not
match. -/
def declaration : Reader (List Token) := do
  let head ← inOrder [word "let", tokensOf (inner (.pattern false)),
    whenever (startsWith ":") (inOrder [sign ":", anyType inner])]
  let value ← whenever (startsWith "=") do
    let eq ← sign "="
    let e ← anyExpression inner
    let other ← whenever (fun xs => !endsWithBlock e && startsWithWord ["else"] xs)
      (inOrder [anyWord, plainBlock inner])
    return eq ++ e ++ other
  return head ++ value ++ (← sign ";")

/-- The lexemes behind a plain path and the sign of an invocation. -/
def behindInvoked? (xs : List Lexeme) : Option (List Lexeme) :=
  match (inOrder [plainPath, sign "!"]).run xs with
  | some (_, rest) => some rest
  | none => none

/-- Whether a macro is invoked here with a block that ends the statement. -/
def startsWithBlockInvocation (xs : List Lexeme) : Bool :=
  match behindInvoked? xs with
  | some rest => startsWithGroup .brace rest &&
      !(startsWithPoint (rest.drop 1) || startsWith "?" (rest.drop 1))
  | none => false

/-- Whether a macro is invoked here that defines a name. -/
def startsWithDefinition (xs : List Lexeme) : Bool :=
  match behindInvoked? xs with
  | some rest => startsWithIdent rest || startsWithWord ["try"] rest
  | none => false

/-- **A statement**, and whether it has to be the last one for want of a semicolon. -/
def statement : Reader (Bool × List Token) := do
  let attrs ← attributes inner
  let ended (read : Reader (List Token)) : Reader (Bool × List Token) := do
    return (false, attrs ++ (← read))
  firstOf [
    (startsWithBlockInvocation, ended (inOrder [plainPath, sign "!", anyGroup, signIfAny ";"])),
    (startsWithWord ["let"], ended (declaration inner)),
    (fun xs => startsWithItem xs || startsWithDefinition xs, ended (tokensOf (inner .item))),
    (fun _ => true, do
      let e ← lineExpression inner
      let semicolon ← signIfAny ";"
      let isWhole := e.shape = .block || e.shape = .invocation .brace
      return (semicolon.isEmpty && !isWhole, attrs ++ e.tokens ++ semicolon))]

/-- Statements, at most `n`. -/
def statementsUpTo : Nat → Reader (List Token)
  | 0 => failure
  | n + 1 => do
    let empty ← many (startsWith ";") (sign ";")
    if (← get).isEmpty then return empty
    let (isLast, ts) ← statement inner
    if (← get).isEmpty then return empty ++ ts
    else if isLast then failure
    else return empty ++ ts ++ (← statementsUpTo n)

/-- **A block of statements**, given whether it may start with attributes. -/
def blockOf (attributed : Bool) : Reader (List Token) := inGroup .brace do
  let attrs ← if attributed then innerAttributes inner else pure []
  return attrs ++ (← statementsUpTo inner ((← get).length + 1))

end GrammarKit.Code.Reader
