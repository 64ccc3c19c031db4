import GrammarKit.Peg.Definition

/-!
# Plans

A grammar does not run as it is written. Each rule is first made into a plan, in which repetitions
are spelled out, alternatives share what they start with, and steps that touch the stack of
remembered texts can be undone.

* `Expr.rightNested`: sequences and choices nested to the right.
* `Plan`: what the steps of a rule are; `Expr.plan` makes an expression into one.
* `Plan.joined`, `Plan.factored`, `Plan.listed`: neighbouring texts, common beginnings and lists.
* `Plan.undoable`: steps after whose failure the stack is as it was before.
* `Routine`, `planGrammar`: the rules of a grammar, ready to run.
-/

namespace GrammarKit.Peg

/-! ## Nesting to the right -/

namespace Expr

/-- One expression after the other, where the left one may be a sequence itself. -/
def seqRight : Expr → Expr → Expr
  | seq a b, r => seqRight a (seqRight b r)
  | e, r => seq e r

/-- One expression or the other, where the left one may be a choice itself. -/
def choiceRight : Expr → Expr → Expr
  | choice a b, r => choiceRight a (choiceRight b r)
  | e, r => choice e r

/-- The expression with its sequences and choices nested to the right. -/
def rightNested : Expr → Expr
  | seq left right => seqRight left.rightNested right.rightNested
  | choice left right => choiceRight left.rightNested right.rightNested
  | push body => push body.rightNested
  | ahead body => ahead body.rightNested
  | notAhead body => notAhead body.rightNested
  | repeated body times => repeated body.rightNested times
  | e => e

end Expr

/-! ## Counts -/

/-- Whether the steps of a repetition cannot be numbered with 32 bits. -/
def Times.countsTooFar : Times → Bool
  | optional | star | plus => false
  | exactly n | atMost n | between _ n => 0xFFFFFFFF ≤ n
  | atLeast n => 0xFFFFFFFE ≤ n

/-- Whether a repetition of the expression has steps that cannot be numbered with 32 bits. -/
def Expr.countsTooFar : Expr → Bool
  | text _ | anyCase _ | range .. | ref _ | peek .. => false
  | push body | ahead body | notAhead body => body.countsTooFar
  | repeated body times => times.countsTooFar || body.countsTooFar
  | seq left right | choice left right => left.countsTooFar || right.countsTooFar

/-! ## Plans -/

/-- **The steps of a rule.** -/
inductive Plan where
  /-- A text as it is. -/
  | text (s : String)
  /-- A text in upper or lower case. -/
  | anyCase (s : String)
  /-- One character between two others. -/
  | range (first last : Char)
  /-- What the rule of that name matches. -/
  | ref (name : String)
  /-- A slice of the stack of remembered texts. -/
  | peek (first : Int) (last : Option Int)
  /-- Remembers the text that the body matches. -/
  | push (body : Plan)
  /-- Looks ahead for the body. -/
  | ahead (body : Plan)
  /-- Looks ahead for the body not to match. -/
  | notAhead (body : Plan)
  /-- The body or nothing. -/
  | optional (body : Plan)
  /-- The body as often as it matches. -/
  | star (body : Plan)
  /-- All characters up to one of the texts, or up to the end. -/
  | upTo (stops : List String)
  /-- One after the other. -/
  | seq (left right : Plan)
  /-- The left one, or else the right one. -/
  | choice (left right : Plan)
  /-- The body, after whose failure the stack is as it was before. -/
  | undoing (body : Plan)
deriving Repr, DecidableEq, Inhabited

namespace Plan

/-- Several plans one after the other. -/
def row : List Plan → Plan
  | [] => text ""
  | [p] => p
  | p :: ps => seq p (row ps)

/-- A plan as often as `times` says. -/
def repeated (p : Plan) : Times → Plan
  | .optional => optional p
  | .star => star p
  | .plus => seq p (star p)
  | .exactly n => row (List.replicate n p)
  | .atLeast n => row (List.replicate n p ++ [star p])
  | .atMost n => row (List.replicate n (optional p))
  | .between n m => row (List.replicate (min n m) p ++ List.replicate (m - n) (optional p))

end Plan

namespace Expr

/-- The texts of a choice between texts, where `rule` gives those of a rule. -/
def texts? (rule : String → Option (List String)) : Expr → Option (List String)
  | text s => some [s]
  | ref name => rule name
  | choice (text s) right => (right.texts? rule).map (s :: ·)
  | choice (ref name) right => do return (← rule name) ++ (← right.texts? rule)
  | _ => none

/-- What must not come next in a step that takes any one character. -/
def unless? : Expr → Option Expr
  | seq (notAhead stop) (ref "ANY") => some stop
  | _ => none

/-- The plan of an expression. Taking any characters as long as no text of a choice comes next is
one step, where `stops?` gives the texts. -/
def plan (stops? : Expr → Option (List String)) : Expr → Plan
  | text s => .text s
  | anyCase s => .anyCase s
  | range first last => .range first last
  | ref name => .ref name
  | peek first last => .peek first last
  | push body => .push (body.plan stops?)
  | ahead body => .ahead (body.plan stops?)
  | notAhead body => .notAhead (body.plan stops?)
  | repeated body times =>
    match if times = .star then body.unless?.bind stops? else none with
    | some stops => .upTo stops
    | none => (body.plan stops?).repeated times
  | seq left right => .seq (left.plan stops?) (right.plan stops?)
  | choice left right => .choice (left.plan stops?) (right.plan stops?)

end Expr

namespace Plan

/-- The number of steps. -/
def size : Plan → Nat
  | push body | ahead body | notAhead body | optional body | star body | undoing body =>
    body.size + 1
  | seq left right | choice left right => left.size + right.size + 1
  | _ => 1

/-! ## Neighbouring texts -/

/-- Two steps in a row, of which two texts make one. -/
def join : Plan → Plan → Plan
  | text s, text t => text (s ++ t)
  | anyCase s, anyCase t => anyCase (s ++ t)
  | p, q => seq p q

/-- The plan with a text at the end of a sequence joined to the text before it. -/
def joined : Plan → Plan
  | push body => push body.joined
  | ahead body => ahead body.joined
  | notAhead body => notAhead body.joined
  | optional body => optional body.joined
  | star body => star body.joined
  | undoing body => undoing body.joined
  | seq left right => join left.joined right.joined
  | choice left right => choice left.joined right.joined
  | p => p

/-! ## Common beginnings -/

/-- A choice between two plans that start alike. What both start with is taken once; a plan that is
the start of the one behind it hides that one; and where no blanks are skipped, a plan behind one
that it starts makes the rest of that one optional. -/
def factor (tight : Bool) (left right : Plan) : Plan :=
  match left, right with
  | seq a b, seq c d => if a = c then seq a (choice b d) else choice (seq a b) (seq c d)
  | seq a b, r => if tight ∧ a = r then seq a (optional b) else choice (seq a b) r
  | l, seq c d => if l = c then l else choice l (seq c d)
  | l, r => choice l r

/-- The plan with its choices factored from the outside to the inside, `n` levels deep. -/
def factoredTo (tight : Bool) : (n : Nat) → Plan → Plan
  | 0, p => p
  | n + 1, p =>
    match (match p with
      | choice left right => factor tight left right
      | p => p) with
    | push body => push (factoredTo tight n body)
    | ahead body => ahead (factoredTo tight n body)
    | notAhead body => notAhead (factoredTo tight n body)
    | optional body => optional (factoredTo tight n body)
    | star body => star (factoredTo tight n body)
    | undoing body => undoing (factoredTo tight n body)
    | seq left right => seq (factoredTo tight n left) (factoredTo tight n right)
    | choice left right => choice (factoredTo tight n left) (factoredTo tight n right)
    | p => p

/-- The plan with its choices factored; `tight` if no blanks are skipped. -/
def factored (tight : Bool) (p : Plan) : Plan := factoredTo tight p.size p

/-! ## Lists -/

/-- Two steps in a row. Items that each have a separator behind them, and a last item without one,
are an item and then items that each have a separator before them. -/
def list (left right : Plan) : Plan :=
  match left with
  | star (seq item separator) =>
    if item = right then seq item (star (seq separator right)) else seq left right
  | _ => seq left right

/-- The plan with all its lists. -/
def listed : Plan → Plan
  | push body => push body.listed
  | ahead body => ahead body.listed
  | notAhead body => notAhead body.listed
  | optional body => optional body.listed
  | star body => star body.listed
  | undoing body => undoing body.listed
  | seq left right => list left.listed right.listed
  | choice left right => choice left.listed right.listed
  | p => p

/-! ## Steps that can be undone -/

/-- Whether a plan adds to the stack or takes from it, where `rules` are the rules that do. What
can be undone already does not count. -/
def changesStack (rules : List String) : Plan → Bool
  | push _ => true
  | ref name => name == "POP" || name == "DROP" || rules.contains name
  | ahead body | notAhead body | optional body | star body => body.changesStack rules
  | seq left right | choice left right => left.changesStack rules || right.changesStack rules
  | _ => false

/-- The plan, undoing what it does to the stack if it fails. -/
def orUndo (rules : List String) (p : Plan) : Plan :=
  if p.changesStack rules then undoing p else p

/-- The plan with every step undone that may fail without the whole failing. -/
def undoable (rules : List String) : Plan → Plan
  | push body => push (body.undoable rules)
  | ahead body => ahead (body.undoable rules)
  | notAhead body => notAhead (body.undoable rules)
  | optional body => optional ((body.undoable rules).orUndo rules)
  | star body => star ((body.undoable rules).orUndo rules)
  | seq left right => seq (left.undoable rules) (right.undoable rules)
  | choice left right =>
    choice ((left.undoable rules).orUndo rules) ((right.undoable rules).orUndo rules)
  | p => p

end Plan

/-! ## Rules -/

/-- **A rule that is ready to run.** -/
structure Routine where
  name : String
  kind : RuleKind
  plan : Plan
deriving Repr, DecidableEq, Inhabited

/-- The rule of a name. -/
def ruleNamed? (rules : List Rule) (name : String) : Option Rule := rules.find? (·.name = name)

/-- The texts of a rule that is a choice between texts, through at most `n` rules. -/
def ruleTexts? (rules : List Rule) : (n : Nat) → String → Option (List String)
  | 0, _ => none
  | n + 1, name => (ruleNamed? rules name).bind fun r => r.body.texts? (ruleTexts? rules n)

/-- The routine of a rule of a grammar, its steps not undone. Only an atomic rule runs up to a text
in one step and joins neighbouring texts, since blanks may stand anywhere else. -/
def Rule.routine (rules : List Rule) (r : Rule) : Routine :=
  let isAtomic := r.kind == .atomic
  let stops? := if isAtomic then Expr.texts? (ruleTexts? rules rules.length) else fun _ => none
  let plan := r.body.rightNested.plan stops?
  let plan := if isAtomic then plan.joined else plan
  ⟨r.name, r.kind, (plan.factored (isAtomic || r.kind == .compound)).listed⟩

/-- The rules that change the stack, where those in `known` are known to; through at most `n`
rules. -/
def stackChangers (routines : List Routine) : (n : Nat) → (known : List String) → List String
  | 0, known => known
  | n + 1, known =>
    let more := (routines.filter (·.plan.changesStack known)).map Routine.name
    if more.length = known.length then known else stackChangers routines n more

/-- **The routines of a grammar.** -/
def planGrammar (rules : List Rule) : List Routine :=
  let routines := rules.map (Rule.routine rules)
  let changers := stackChangers routines routines.length []
  routines.map fun r => { r with plan := r.plan.undoable changers }

end GrammarKit.Peg
