import GrammarKit.Regex.Escape

/-!
# Reading classes between brackets

Classes nest, and operators combine what stands before them with what follows. The reader keeps
the open classes on a stack.

* `asciiClass?`: a class named between colons.
* `openClass`: the start of a class, where hyphens and a closing bracket stand for themselves.
* `classItem`: a character, a range of characters or an escape.
* `readClass`: a whole class.
-/

namespace GrammarKit.Regex

open Text

/-! ## Parts of classes -/

/-- The class of that name. -/
def AsciiClass.ofName? (name : String) : Option AsciiClass :=
  match name with
  | "alnum" => some .alnum
  | "alpha" => some .alpha
  | "ascii" => some .ascii
  | "blank" => some .blank
  | "cntrl" => some .cntrl
  | "digit" => some .digit
  | "graph" => some .graph
  | "lower" => some .lower
  | "print" => some .print
  | "punct" => some .punct
  | "space" => some .space
  | "upper" => some .upper
  | "word" => some .word
  | "xdigit" => some .xdigit
  | _ => none

/-- A class named between colons, from its bracket on. -/
def asciiClass? : List Char → Option (ClassItem × List Char)
  | '[' :: ':' :: s =>
    let (negated, s) := match s with
      | '^' :: s => (true, s)
      | s => (false, s)
    match s.dropWhile (· ≠ ':') with
    | ':' :: ']' :: rest =>
      (AsciiClass.ofName? (String.ofList (s.takeWhile (· ≠ ':')))).map fun kind =>
        (.ascii kind negated, rest)
    | _ => none
  | _ => none

/-- What a primitive is inside a class. -/
def Primitive.toItem : Primitive → Except ReadError ClassItem
  | .literal l => .ok (.literal l)
  | .escapeClass kind negated => .ok (.escape kind negated)
  | .property query negated => .ok (.property query negated)
  | .assertion _ => .error .classEscapeInvalid

/-- The literal at the end of a range. -/
def Primitive.toBound : Primitive → Except ReadError Literal
  | .literal l => .ok l
  | _ => .error .classRangeLiteral

/-- A character or an escape. -/
def classPrimitive (verbose : Bool) : List Char → Except ReadError (Primitive × List Char)
  | [] => .error .classUnclosed
  | c :: s => if c = '\\' then escape verbose s else .ok (.literal { char := c }, s)

/-- The first character of a text that is no white space; a hash sign is passed over as well, and
without such a character the text's own first one counts. -/
def peekSpace (verbose : Bool) (s : List Char) : Option Char :=
  if verbose then
    let rest := match s.dropWhile isWhiteSpace with
      | '#' :: t => t.dropWhile isWhiteSpace
      | t => t
    if rest = [] then s.head? else rest.head?
  else s.head?

/-- A character, a range of characters or an escape. -/
def classItem (verbose : Bool) (s : List Char) : Except ReadError (ClassItem × List Char) := do
  let (first, s) ← classPrimitive verbose s
  match skipSpace verbose s with
  | [] => .error .classUnclosed
  | c :: t =>
    if c ≠ '-' ∨ peekSpace verbose t = some ']' ∨ peekSpace verbose t = some '-' then
      return (← first.toItem, c :: t)
    else
      let (last, rest) ← classPrimitive verbose (skipSpace verbose t)
      let first ← first.toBound
      let last ← last.toBound
      if first.char ≤ last.char then return (.range first last, rest)
      else .error .classRangeInvalid

/-- Hyphens at the start of a class, which stand for themselves. -/
def leadingHyphens (verbose : Bool) : Nat → List Char →
    Except ReadError (List ClassItem × List Char)
  | 0, s => .ok ([], s)
  | n + 1, s =>
    match s with
    | [] => .error .classUnclosed
    | c :: t =>
      if c = '-' then do
        let (items, s) ← leadingHyphens verbose n (skipSpace verbose t)
        return (.literal { char := '-' } :: items, s)
      else .ok ([], c :: t)

/-- What follows an opening bracket: a sign of negation, hyphens, and a closing bracket that
stands for itself if nothing else is there yet. -/
def openClass (verbose : Bool) (s : List Char) :
    Except ReadError ((Bool × List ClassItem) × List Char) := do
  let (negated, s) ← match skipSpace verbose s with
    | [] => .error .classUnclosed
    | c :: t => if c = '^' then .ok (true, skipSpace verbose t) else .ok (false, c :: t)
  let (hyphens, s) ← leadingHyphens verbose (s.length + 1) s
  match s with
  | [] => .error .classUnclosed
  | c :: t =>
    if hyphens = [] ∧ c = ']' then
      match skipSpace verbose t with
      | [] => .error .classUnclosed
      | t => return ((negated, [.literal { char := ']' }]), t)
    else return ((negated, hyphens), c :: t)

/-! ## Whole classes -/

/-- What waits for the end of the current class: the class around it, or the left side of an
operator. -/
inductive ClassFrame where
  | outer (items : List ClassItem) (negated : Bool)
  | left (kind : SetOp) (set : ClassSet)

/-- Applies the operator that waits on top of the stack. -/
def applyOp (right : ClassSet) : List ClassFrame → ClassSet × List ClassFrame
  | .left kind left :: stack => (.op kind left right, stack)
  | stack => (right, stack)

/-- The operator at the front of a text. -/
def setOp? : List Char → Option (SetOp × List Char)
  | '&' :: '&' :: s => some (.intersection, s)
  | '-' :: '-' :: s => some (.difference, s)
  | '~' :: '~' :: s => some (.symmetricDifference, s)
  | _ => none

/-- The rest of a class whose parts so far are `items`, inside the classes on the stack. -/
def classTail (verbose : Bool) : Nat → List ClassFrame → List ClassItem → List Char →
    Except ReadError ((Bool × ClassSet) × List Char)
  | 0, _, _, _ => .error .classUnclosed
  | n + 1, stack, items, s =>
    match skipSpace verbose s with
    | [] => .error .classUnclosed
    | c :: t =>
      if c = '[' then
        match asciiClass? (c :: t) with
        | some (item, rest) => classTail verbose n stack (items ++ [item]) rest
        | none => do
          let ((negated, inner), rest) ← openClass verbose t
          classTail verbose n (.outer items negated :: stack) inner rest
      else if c = ']' then
        match applyOp (.items items) stack with
        | (set, [.outer _ negated]) => .ok ((negated, set), t)
        | (set, .outer outer negated :: stack) =>
          classTail verbose n stack (outer ++ [.nested negated set]) t
        | (_, _) => .error .classUnclosed
      else match setOp? (c :: t) with
        | some (kind, rest) =>
          let (set, stack) := applyOp (.items items) stack
          classTail verbose n (.left kind set :: stack) [] rest
        | none => do
          let (item, rest) ← classItem verbose (c :: t)
          classTail verbose n stack (items ++ [item]) rest

/-- A class behind its opening bracket: whether it is negated, and its inside. -/
def readClass (verbose : Bool) (s : List Char) :
    Except ReadError ((Bool × ClassSet) × List Char) := do
  let ((negated, items), s) ← openClass verbose s
  classTail verbose (s.length + 1) [.outer [] negated] items s

end GrammarKit.Regex
