import GrammarKit.Code.Lexer

/-!
# Readers of lexemes

A reader takes lexemes from the front of a list and gives their tokens. Which way it goes is
decided by looking at the next lexemes, so that almost nothing is read twice.

* `Reader`: readers.
* `startsWith`, `startsWithWord`, …: what comes next.
* `sign`, `word`, `ident`, `lifetime`, `literal`, `inGroup`: single lexemes.
* `inOrder`, `firstOf`, `whenever`, `many`, `items`: readers made from readers.
* `written`, `asWritten`: tokens that keep the blanks between signs.
* `angled`: lists between angle brackets, whose lifetimes come first.
-/

namespace GrammarKit.Code

/-- **A reader of lexemes.** -/
abbrev Reader := StateT (List Lexeme) Option

namespace Reader

/-- What `read` makes of a whole list of lexemes. -/
def whole? {α : Type} (read : Reader α) (xs : List Lexeme) : Option α :=
  match read.run xs with
  | some (a, []) => some a
  | _ => none

/-! ## What comes next -/

/-- The lexemes behind a sign, whose characters have nothing between them. -/
def afterSign? : List Char → List Lexeme → Option (List Lexeme)
  | [c], .sign d _ :: xs => if c = d then some xs else none
  | c :: cs, .sign d true :: xs => if c = d then afterSign? cs xs else none
  | _, _ => none

/-- Whether the lexemes start with a sign. -/
def startsWith (s : String) (xs : List Lexeme) : Bool := (afterSign? s.toList xs).isSome

/-- Whether the lexemes start with a sign that is not the start of one of the others. -/
def startsWithOnly (s : String) (others : List String) (xs : List Lexeme) : Bool :=
  startsWith s xs && !others.any (startsWith · xs)

/-- Whether the lexemes start with one of the words. -/
def startsWithWord (ws : List String) : List Lexeme → Bool
  | .word w :: _ => ws.contains w
  | _ => false

/-- Whether the lexemes start with a word of any kind. -/
def startsWithAnyWord : List Lexeme → Bool
  | .word _ :: _ => true
  | _ => false

/-- Whether the lexemes start with an identifier. -/
def startsWithIdent : List Lexeme → Bool
  | .word w :: _ => isPlainWord w
  | _ => false

/-- Whether the lexemes start with a lifetime. -/
def startsWithLifetime : List Lexeme → Bool
  | .lifetime _ :: _ => true
  | _ => false

/-- Whether the lexemes start with a literal, a truth value or a negative number. -/
def startsWithLiteral : List Lexeme → Bool
  | .literal _ :: _ => true
  | .word w :: _ => w == "true" || w == "false"
  | .sign '-' _ :: .literal s :: _ => s.toList.head?.any Char.isDigit
  | _ => false

/-- Whether the lexemes start with the literal of a text. -/
def startsWithText : List Lexeme → Bool
  | .literal s :: _ => s.toList.head?.any fun c => c == '"' || c == 'r'
  | _ => false

/-- Whether the lexemes start with a group. -/
def startsWithGroup (d : Delimiter) : List Lexeme → Bool
  | .group e _ :: _ => d == e
  | _ => false

/-- Whether the lexemes start with a point that is not the start of a range. -/
def startsWithPoint (xs : List Lexeme) : Bool := startsWithOnly "." [".."] xs

/-- Whether the lexemes start with a colon that is not the start of a double colon. -/
def startsWithColon (xs : List Lexeme) : Bool := startsWithOnly ":" ["::"] xs

/-- Whether the lexemes start with a sign of equality that is not the start of a longer sign. -/
def startsWithEquals (xs : List Lexeme) : Bool := startsWithOnly "=" ["==", "=>"] xs

/-! ## Single lexemes -/

/-- A sign. -/
def sign (s : String) : Reader (List Token) := do
  match afterSign? s.toList (← get) with
  | some xs => set xs; return [.unit s]
  | none => failure

/-- One of the words. -/
def wordOf (ws : List String) : Reader (List Token) := do
  match ← get with
  | .word w :: xs => if ws.contains w then set xs; return [.unit w] else failure
  | _ => failure

/-- A word. -/
def word (w : String) : Reader (List Token) := wordOf [w]

/-- A word of any kind. -/
def anyWord : Reader (List Token) := do
  match ← get with
  | .word w :: xs => set xs; return [.unit w]
  | _ => failure

/-- An identifier. -/
def ident : Reader (List Token) := do
  if startsWithIdent (← get) then anyWord else failure

/-- A lifetime. -/
def lifetime : Reader (List Token) := do
  match ← get with
  | .lifetime w :: xs => set xs; return [.unit w]
  | _ => failure

/-- A literal, a truth value or a negative number. -/
def literal : Reader (List Token) := do
  let xs ← get
  if startsWithLiteral xs then
    match xs with
    | .literal s :: rest | .word s :: rest => set rest; return [.unit s]
    | .sign c _ :: .literal s :: rest => set rest; return [.unit c.toString, .unit s]
    | _ => failure
  else failure

/-- The literal of a text. -/
def text : Reader (List Token) := do if startsWithText (← get) then literal else failure

/-- A group whose whole inside `read` reads. -/
def inGroup (d : Delimiter) (read : Reader (List Token)) : Reader (List Token) := do
  match ← get with
  | .group e body :: xs =>
    if d = e then
      match read.whole? body with
      | some tokens => set xs; return [.group d tokens]
      | none => failure
    else failure
  | _ => failure

/-! ## Readers made from readers -/

/-- What the readers read, one behind the other. -/
def inOrder : List (Reader (List Token)) → Reader (List Token)
  | [] => return []
  | read :: more => do
    let ts ← read
    return ts ++ (← inOrder more)

/-- The first reader whose test the lexemes pass. -/
def firstOf {α : Type} : List ((List Lexeme → Bool) × Reader α) → Reader α
  | [] => failure
  | (test, read) :: more => do if test (← get) then read else firstOf more

/-- What `read` reads if the lexemes pass the test, and else nothing. -/
def whenever (test : List Lexeme → Bool) (read : Reader (List Token)) : Reader (List Token) := do
  if test (← get) then read else return []

/-- A sign that may be missing. -/
def signIfAny (s : String) : Reader (List Token) := whenever (startsWith s) (sign s)

/-- A word that may be missing. -/
def wordIfAny (w : String) : Reader (List Token) := whenever (startsWithWord [w]) (word w)

/-- `read` as long as the lexemes pass the test, at most `n` times. -/
def repeatUpTo (test : List Lexeme → Bool) (read : Reader (List Token)) : Nat → Reader (List Token)
  | 0 => return []
  | n + 1 => do
    if test (← get) then
      let ts ← read
      return ts ++ (← repeatUpTo test read n)
    else return []

/-- `read` as long as the lexemes pass the test. -/
def many (test : List Lexeme → Bool) (read : Reader (List Token)) : Reader (List Token) := do
  repeatUpTo test read (← get).length

/-- Items with a separator between them, at most `n`, as long as the lexemes pass no test for the
end; a separator may end them. -/
def separatedUpTo (separator : String) (ends : List Lexeme → Bool) (read : Reader (List Token)) :
    Nat → Reader (List Token)
  | 0 => failure
  | n + 1 => do
    if ends (← get) then return []
    let item ← read
    if ends (← get) then return item
    let mark ← sign separator
    return item ++ mark ++ (← separatedUpTo separator ends read n)

/-- Items with commas between them up to an end. -/
def itemsUntil (ends : List Lexeme → Bool) (read : Reader (List Token)) : Reader (List Token) := do
  separatedUpTo "," ends read ((← get).length + 1)

/-- Items with commas between them, up to the end of all lexemes. -/
def items (read : Reader (List Token)) : Reader (List Token) := itemsUntil List.isEmpty read

/-- Items with plus signs between them, up to an end or an item without one. -/
def sumUntil (ends : List Lexeme → Bool) (read : Reader (List Token)) : Reader (List Token) := do
  whenever (!ends ·) do
    let first ← read
    let more ← many (startsWith "+") (inOrder [sign "+", whenever (!ends ·) read])
    return first ++ more

/-! ## Tokens as they were written -/

/-- The tokens of lexemes as they were written, `joined` being the signs just before them. Signs
without a blank between them are one token, and one before a quote belongs to it. -/
def written (joined : String) : List Lexeme → List Token
  | [] => if joined = "" then [] else [.unit joined]
  | .word w :: xs | .literal w :: xs | .lifetime w :: xs => .unit (joined ++ w) :: written "" xs
  | .sign c joint :: xs =>
    if joint then written (joined.push c) xs else .unit (joined.push c) :: written "" xs
  | .group d body :: xs => .group d (written "" body) :: written "" xs

/-- What `read` reads, as it was written. -/
def asWritten {α : Type} (read : Reader α) : Reader (List Token) := do
  let before ← get
  let _ ← read
  let after ← get
  return written "" (before.take (before.length - after.length))

/-- All lexemes that are left, as they were written. -/
def rest : Reader (List Token) := do
  let xs ← get
  set ([] : List Lexeme)
  return written "" xs

/-! ## Lists between angle brackets -/

/-- An entry of a list between angle brackets: whether it is a lifetime, its tokens, and whether a
comma follows. -/
structure Entry where
  isLifetime : Bool
  tokens : List Token
  comma : Bool

/-- At most `n` entries up to the closing sign. -/
def entriesUpTo (read : Reader (Bool × List Token)) : Nat → Reader (List Entry)
  | 0 => failure
  | n + 1 => do
    if startsWith ">" (← get) then return []
    let (isLifetime, tokens) ← read
    if startsWith ">" (← get) then return [⟨isLifetime, tokens, false⟩]
    let _ ← sign ","
    return ⟨isLifetime, tokens, true⟩ :: (← entriesUpTo read n)

/-- Tokens of entries, `ended` if a comma or nothing is in front of them. -/
def entryTokens (ended : Bool) : List Entry → List Token
  | [] => []
  | e :: more =>
    (if ended then [] else [.unit ","]) ++ e.tokens ++ (if e.comma then [.unit ","] else []) ++
      entryTokens e.comma more

/-- The tokens of entries: all lifetimes, then the others, a comma between any two. -/
def lifetimesFirst (entries : List Entry) : List Token :=
  entryTokens true (entries.filter (·.isLifetime) ++ entries.filter (!·.isLifetime))

/-- The entries of a list between angle brackets. -/
def entries (read : Reader (Bool × List Token)) : Reader (List Entry) := do
  let _ ← sign "<"
  let found ← entriesUpTo read ((← get).length + 1)
  let _ ← sign ">"
  return found

/-- A list between angle brackets. -/
def angled (read : Reader (Bool × List Token)) : Reader (List Token) := do
  return .unit "<" :: lifetimesFirst (← entries read) ++ [.unit ">"]

end Reader

end GrammarKit.Code
