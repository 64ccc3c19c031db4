import GrammarKit.Regex.ClassReader

/-!
# Reading regular expressions

The reader goes through the text once and keeps the open groups on a stack.

* `GroupStart`, `groupStart`: what follows an opening parenthesis.
* `countedRepetition`: a repetition between braces.
* `Ast.parse`: the expression that a text writes.
-/

namespace GrammarKit.Regex

open Text

/-! ## Groups and flags -/

/-- The flag of a letter. -/
def Flag.ofLetter? : Char → Option Flag
  | 'i' => some .caseInsensitive
  | 'm' => some .multiLine
  | 's' => some .dotMatchesNewLine
  | 'U' => some .swapGreed
  | 'u' => some .unicode
  | 'R' => some .crlf
  | 'x' => some .ignoreWhitespace
  | _ => none

/-- Flags up to a colon or a closing parenthesis, which stays. `negated` tells whether a minus
sign came, `dangling` whether it came last. -/
def readFlags : (negated dangling : Bool) → Flags → List Char →
    Except ReadError (Flags × List Char)
  | _, _, _, [] => .error .flagUnexpectedEnd
  | negated, dangling, flags, c :: s =>
    if c = ':' ∨ c = ')' then
      if dangling then .error .flagDanglingNegation else .ok (flags, c :: s)
    else if c = '-' then
      if negated then .error .flagRepeatedNegation else readFlags true true flags s
    else match Flag.ofLetter? c with
      | none => .error .flagUnrecognized
      | some f =>
        if (flags.state? f).isSome then .error .flagDuplicate
        else readFlags negated false (flags ++ [(f, !negated)]) s

/-- Characters of group names. -/
def isGroupNameChar (first : Bool) (c : Char) : Bool :=
  if first then c == '_' || isAlphabetic c
  else c == '_' || c == '.' || c == '[' || c == ']' || isAlphanumeric c

/-- The name of a group, up to the closing angle bracket, which is passed over. -/
def groupName : (first : Bool) → List Char → Except ReadError (List Char × List Char)
  | _, [] => .error .groupNameUnexpectedEnd
  | first, c :: s =>
    if c = '>' then .ok ([], s)
    else if isGroupNameChar first c then do
      let (name, s) ← groupName false s
      return (c :: name, s)
    else .error .groupNameInvalid

/-- What an opening parenthesis starts: a group, or flags for the rest of the group around it. -/
inductive GroupStart where
  | named (name : List Char)
  | numbered
  | flagged (flags : Flags)
  | directive (flags : Flags)

/-- What follows an opening parenthesis. -/
def groupStart (verbose : Bool) (s : List Char) : Except ReadError (GroupStart × List Char) :=
  match skipSpace verbose s with
  | '?' :: '=' :: _ => .error .unsupportedLookAround
  | '?' :: '!' :: _ => .error .unsupportedLookAround
  | '?' :: '<' :: '=' :: _ => .error .unsupportedLookAround
  | '?' :: '<' :: '!' :: _ => .error .unsupportedLookAround
  | '?' :: 'P' :: '<' :: s => named s
  | '?' :: '<' :: s => named s
  | '?' :: s =>
    if s = [] then .error .groupUnclosed
    else do
      let (flags, s) ← readFlags false false [] s
      match s with
      | ')' :: s =>
        if flags = [] then .error .repetitionMissing else .ok (.directive flags, s)
      | s => .ok (.flagged flags, s.tail)
  | s => .ok (.numbered, s)
where
  /-- A named group behind its opening angle bracket. -/
  named (s : List Char) : Except ReadError (GroupStart × List Char) := do
    let (name, s) ← groupName true s
    if name = [] then .error .groupNameEmpty else .ok (.named name, s)

/-! ## Repetitions -/

/-- Digits, between which verbose mode allows white space. -/
def takeDigits (verbose : Bool) : Nat → List Char → List Char × List Char
  | 0, s => ([], s)
  | _ + 1, [] => ([], [])
  | n + 1, c :: s =>
    if c.isDigit then
      let (ds, s) := takeDigits verbose n (skipSpace verbose s)
      (c :: ds, s)
    else ([], c :: s)

/-- The number that decimal digits write. -/
def decimalNumber (ds : List Char) : Nat := ds.foldl (fun n c => 10 * n + (c.toNat - 48)) 0

/-- A count between white space: the count, or why there is none, and the text behind it. -/
def count (verbose : Bool) (s : List Char) : Except ReadError Nat × List Char :=
  let s := s.dropWhile isWhiteSpace
  let (ds, s) := takeDigits verbose s.length s
  let rest := if (s.head?.map isWhiteSpace).getD false then
      (if verbose then skipVerbose false s else s.dropWhile isWhiteSpace) else s
  (if ds = [] then .error .repetitionCountDecimalEmpty
    else if decimalNumber ds ≤ 0xFFFFFFFF then .ok (decimalNumber ds) else .error .decimalInvalid,
    rest)

/-- The counts between braces, up to the closing one. -/
def countRange (verbose : Bool) (s : List Char) :
    Except ReadError ((Nat × Option Nat) × List Char) :=
  let (least, s) := count verbose s
  match s with
  | [] => .error .repetitionCountUnclosed
  | c :: t =>
    if c = ',' then
      match skipSpace verbose t with
      | [] => .error .repetitionCountUnclosed
      | d :: t => do
        let least ← least
        if d = '\x7d' then return ((least, none), d :: t)
        else
          let (most, s) := count verbose (d :: t)
          return ((least, some (← most)), s)
    else do
      let n ← least
      return ((n, some n), c :: t)

/-- A counted repetition behind its opening brace: least and greatest count, and greediness. -/
def countedRepetition (verbose : Bool) (s : List Char) :
    Except ReadError ((Nat × Option Nat × Bool) × List Char) :=
  match skipSpace verbose s with
  | [] => .error .repetitionCountUnclosed
  | s => do
    let ((least, most), s) ← countRange verbose s
    match s with
    | [] => .error .repetitionCountUnclosed
    | c :: t =>
      if c ≠ '\x7d' then .error .repetitionCountUnclosed
      else
        let (greedy, rest) := match skipSpace verbose t with
          | '?' :: t => (false, t)
          | t => (true, t)
        if (most.map fun n => decide (least ≤ n)).getD true then
          return ((least, most, greedy), rest)
        else .error .repetitionCountInvalid

/-! ## Whole expressions -/

/-- What waits for the end of the current parts: the group they are in, with the parts before it
and the mode to go back to, or earlier branches of a choice. -/
inductive Frame where
  | group (kind : GroupKind) (before : List Ast) (verbose : Bool)
  | branches (branches : List Ast)

/-- Where the reader stands. -/
structure ReadState where
  verbose : Bool := false
  captures : Nat := 0
  names : List (List Char) := []
  stack : List Frame := []
  parts : List Ast := []
  rest : List Char

namespace ReadState

/-- The state with one more part. -/
def push (st : ReadState) (a : Ast) (rest : List Char) : ReadState :=
  { st with parts := st.parts ++ [a], rest }

/-- The state inside a new group. -/
def enter (st : ReadState) (kind : GroupKind) (verbose : Bool) (rest : List Char) : ReadState :=
  { st with stack := .group kind st.parts st.verbose :: st.stack, parts := [], verbose, rest }

/-- Starts the group or sets the flags behind an opening parenthesis. -/
def openGroup (st : ReadState) (s : List Char) : Except ReadError ReadState := do
  let (start, s) ← groupStart st.verbose s
  match start with
  | .numbered =>
    let index := st.captures + 1
    return ({ st with captures := index }).enter (.capture index) st.verbose s
  | .named name =>
    if name ∈ st.names then .error .groupNameDuplicate
    else
      let index := st.captures + 1
      return ({ st with captures := index, names := name :: st.names }).enter
        (.capture index) st.verbose s
  | .flagged flags =>
    return st.enter (.flags flags) ((flags.state? .ignoreWhitespace).getD st.verbose) s
  | .directive flags =>
    return { st.push (.flags flags) s with
      verbose := (flags.state? .ignoreWhitespace).getD st.verbose }

/-- Ends the innermost group. -/
def closeGroup (st : ReadState) (s : List Char) : Except ReadError ReadState :=
  let close (body : Ast) : List Frame → Except ReadError ReadState
    | .group kind before verbose :: stack =>
      .ok { st with stack, verbose, parts := before ++ [.group kind body], rest := s }
    | _ => .error .groupUnopened
  match st.stack with
  | .branches branches :: stack => close (.alternation (branches ++ [.ofParts st.parts])) stack
  | stack => close (.ofParts st.parts) stack

/-- Ends a branch of a choice. -/
def nextBranch (st : ReadState) (s : List Char) : ReadState :=
  match st.stack with
  | .branches branches :: stack =>
    { st with
      stack := .branches (branches ++ [.ofParts st.parts]) :: stack, parts := [], rest := s }
  | stack => { st with stack := .branches [.ofParts st.parts] :: stack, parts := [], rest := s }

/-- Takes the last part, which a repetition needs. -/
def popPart (st : ReadState) : Except ReadError (Ast × List Ast) :=
  match st.parts.reverse with
  | [] => .error .repetitionMissing
  | .empty :: _ => .error .repetitionMissing
  | .flags _ :: _ => .error .repetitionMissing
  | a :: parts => .ok (a, parts.reverse)

/-- Repeats the last part. -/
def repeatLast (st : ReadState) (least : Nat) (most : Option Nat) (s : List Char) :
    Except ReadError ReadState := do
  let (a, parts) ← st.popPart
  let (greedy, s) := match s with
    | '?' :: s => (false, s)
    | s => (true, s)
  return { st with parts := parts ++ [.repetition a least most greedy], rest := s }

/-- Repeats the last part as often as the counts between braces say. -/
def repeatCounted (st : ReadState) (s : List Char) : Except ReadError ReadState := do
  let (a, parts) ← st.popPart
  let ((least, most, greedy), s) ← countedRepetition st.verbose s
  return { st with parts := parts ++ [.repetition a least most greedy], rest := s }

/-- Takes the part that starts with the character `c`, in front of `s`. -/
def step (st : ReadState) (c : Char) (s : List Char) : Except ReadError ReadState :=
  if c = '(' then st.openGroup s
  else if c = ')' then st.closeGroup s
  else if c = '|' then .ok (st.nextBranch s)
  else if c = '[' then do
    let ((negated, set), s) ← readClass st.verbose s
    return st.push (.bracketed negated set) s
  else if c = '?' then st.repeatLast 0 (some 1) s
  else if c = '*' then st.repeatLast 0 none s
  else if c = '+' then st.repeatLast 1 none s
  else if c = '\x7b' then st.repeatCounted s
  else if c = '\\' then do
    let (p, s) ← escape st.verbose s
    return match p with
      | .literal l => st.push (.literal l) s
      | .assertion a => st.push (.assertion a) s
      | .escapeClass kind negated => st.push (.escapeClass kind negated) s
      | .property query negated => st.push (.property query negated) s
  else if c = '.' then .ok (st.push .dot s)
  else if c = '^' then .ok (st.push (.assertion .startLine) s)
  else if c = '$' then .ok (st.push (.assertion .endLine) s)
  else .ok (st.push (.literal { char := c }) s)

/-- The expression, once all of the text is read. -/
def finish (st : ReadState) : Except ReadError Ast :=
  match st.stack with
  | [] => .ok (.ofParts st.parts)
  | [.branches branches] => .ok (.alternation (branches ++ [.ofParts st.parts]))
  | _ => .error .groupUnclosed

/-- Reads the rest of the text. -/
def run : Nat → ReadState → Except ReadError Ast
  | 0, st => st.finish
  | n + 1, st =>
    match skipSpace st.verbose st.rest with
    | [] => st.finish
    | c :: s => do run n (← st.step c s)

end ReadState

/-- **The regular expression that a text writes.** -/
def Ast.parse (s : List Char) : Except ReadError Ast := do
  let a ← ReadState.run (s.length + 1) { rest := s }
  if a.depth ≤ nestLimit then return a else .error .nestedTooDeeply

end GrammarKit.Regex
