import GrammarKit.Peg.Definition

/-!
# Progress

A repetition ends because every time gets on: a character is taken, or a text is taken off the
stack. Whether an expression can match without getting on depends on what is on the stack.

* `Expr.cannotFailWith`, `cannotFail`: expressions that match everywhere.
* `Reserve`: what is known about the stack.
* `Expr.stillWith`, `standsStill`: the stacks after a match that has not got on.
* `Expr.reserveAfter`: what is known about the stack behind an expression.
* `Term.reserves`: the parts of an expression, each with what is known in front of it.
-/

namespace GrammarKit.Peg

/-- The expression that a rule of the grammar stands for. -/
def bodyOf? (ds : List Definition) (name : String) : Option Term :=
  (ds.find? fun d => d.name = name).map Definition.body

/-- Carries a function on expressions over to the rules of a grammar. For a rule that is already
being looked into, or that the grammar does not define, the answer is `dead`; there are at most `n`
rules to look into. -/
def throughRules {α : Type} (ds : List Definition) (dead : α) (f : (String → α) → Expr → α) :
    (n : Nat) → (trail : List String) → String → α
  | 0, _, _ => dead
  | n + 1, trail, name =>
    if trail.contains name then dead
    else match bodyOf? ds name with
      | some body => f (throughRules ds dead f n (name :: trail)) body.expr
      | none => dead

/-! ## Expressions that match everywhere -/

/-- Whether an expression matches everywhere, where `rule` tells so for the rules it uses. -/
def Expr.cannotFailWith (rule : String → Bool) : Expr → Bool
  | .text s | .anyCase s => s.isEmpty
  | .range .. | .peek .. => false
  | .ref name => rule name
  | .push body => body.cannotFailWith rule
  | .ahead body => body.cannotFailWith rule
  | .notAhead _ => false
  | .repeated body times =>
    match times with
    | .optional | .star | .atMost _ => true
    | .plus => body.cannotFailWith rule
    | .exactly n | .atLeast n | .between n _ => n == 0 || body.cannotFailWith rule
  | .seq left right => left.cannotFailWith rule && right.cannotFailWith rule
  | .choice left right => left.cannotFailWith rule || right.cannotFailWith rule

/-- Whether an expression matches everywhere. -/
def cannotFail (ds : List Definition) (trail : List String) (e : Expr) : Bool :=
  e.cannotFailWith (throughRules ds false Expr.cannotFailWith ds.length trail)

/-! ## The stack -/

/-- **What is known about the stack.** A text counts as light if it may be empty; the latest text
comes first. -/
structure Reserve where
  /-- Texts that have been added since the start of what is looked at: whether they are light. -/
  recent : List Bool := []
  /-- Known texts below those: whether they are light. -/
  older : List Bool := []
  /-- Whether there are no texts below the known ones. -/
  isWhole : Bool := false
deriving Repr, DecidableEq, Inhabited

namespace Reserve

/-- A stack of which nothing is known. -/
def unknown : Reserve := {}

/-- The empty stack. -/
def empty : Reserve := { isWhole := true }

/-- The known texts. -/
def known (r : Reserve) : List Bool := r.recent ++ r.older

/-- The stack at the start of something else to look at. -/
def settle (r : Reserve) : Reserve := { r with recent := [], older := r.known }

/-- The stack with a text added. -/
def push (r : Reserve) (light : Bool) : Reserve := { r with recent := light :: r.recent }

/-- The stack without its latest text. -/
def drop (r : Reserve) : Reserve :=
  match r.recent, r.older with
  | _ :: recent, _ => { r with recent }
  | [], _ :: older => { r with older }
  | [], [] => r

/-- What holds of the stack whichever of two ways was taken. -/
def join (r s : Reserve) : Reserve := if r = s then r else unknown

/-- The stacks after all texts have matched without getting on. -/
def stillPeekAll (r : Reserve) : List Reserve := if r.isWhole && r.known.all id then [r] else []

/-- The stacks after a slice has matched without getting on: it holds no text, or the stack is
known and it holds light texts only. -/
def stillSlice (r : Reserve) (first : Int) (last : Option Int) : List Reserve :=
  let texts := r.known.reverse
  let place (n : Int) : Nat := if 0 ≤ n then n.toNat else ((texts.length : Int) + n).toNat
  match last with
  | none => if r.isWhole && (texts.drop (place first)).all id then [r] else []
  | some n =>
    if (first < 0) = (n < 0) ∧ n ≤ first then [r]
    else if r.isWhole &&
        ((texts.drop (place first)).take (place n - place first)).all id then [r]
    else []

end Reserve

/-! ## Expressions that can stand still -/

/-- `step` at most `n` times, until nothing changes. -/
def repeatSteps (step : List Reserve → List Reserve) : (n : Nat) → List Reserve → List Reserve
  | 0, rs => rs
  | n + 1, rs => if step rs = rs then rs else repeatSteps step n (step rs)

/-- The stacks after an expression has matched without getting on, from the stack `r`: no character
was taken, and no text that had been on the stack at the start. `rule` tells so for the rules. -/
def Expr.stillWith (rule : String → Reserve → List Reserve) : Expr → Reserve → List Reserve
  | .text s, r | .anyCase s, r => if s.isEmpty then [r] else []
  | .range .., _ => []
  | .ref name, r =>
    match name with
    | "SOI" | "EOI" => [r]
    | "PEEK" => if r.known.head? = some true then [r] else []
    | "POP" => if r.recent.head? = some true then [r.drop] else []
    | "DROP" => if r.recent.isEmpty then [] else [r.drop]
    | "PEEK_ALL" => r.stillPeekAll
    | "POP_ALL" => if r.older.isEmpty then r.stillPeekAll.map fun _ => .empty else []
    | _ => rule name r
  | .peek first last, r => r.stillSlice first last
  | .push body, r => (body.stillWith rule r).map (·.push true)
  | .ahead _, r | .notAhead _, r => [r]
  | .repeated body times, r =>
    let step (rs : List Reserve) := (rs.flatMap (body.stillWith rule)).eraseDups
    match times with
    | .optional | .star | .atMost _ => [r]
    | .plus => step [r]
    | .exactly n | .atLeast n | .between n _ => if n == 0 then [r] else repeatSteps step n [r]
  | .seq left right, r => (left.stillWith rule r).flatMap (right.stillWith rule)
  | .choice left right, r => (left.stillWith rule r ++ right.stillWith rule r).eraseDups

/-- The stacks after an expression has matched without getting on. -/
def stillFrom (ds : List Definition) (trail : List String) (e : Expr) (r : Reserve) :
    List Reserve :=
  e.stillWith (throughRules ds (fun _ => []) Expr.stillWith ds.length trail) r

/-- Whether an expression can match without getting on, from the stack `r`. -/
def standsStill (ds : List Definition) (trail : List String) (e : Expr) (r : Reserve) : Bool :=
  !(stillFrom ds trail e r.settle).isEmpty

/-! ## The stack behind an expression -/

/-- Whether an expression adds to the stack or takes from it, where `rules` are the rules that
do. -/
def Expr.usesStack (rules : List String) : Expr → Bool
  | .text _ | .anyCase _ | .range .. | .peek .. => false
  | .ref name => name ∈ ["POP", "DROP", "POP_ALL"] || rules.contains name
  | .push _ => true
  | .ahead body | .notAhead body | .repeated body _ => body.usesStack rules
  | .seq left right | .choice left right => left.usesStack rules || right.usesStack rules

/-- The rules that use the stack, where those in `known` are known to; through at most `n` rules. -/
def stackUsers (ds : List Definition) : (n : Nat) → (known : List String) → List String
  | 0, known => known
  | n + 1, known =>
    let more := (ds.filter (·.body.expr.usesStack known)).map Definition.name
    if more.length = known.length then known else stackUsers ds n more

/-- What is known about the stack behind an expression. `rule` tells so for the rules in `users`,
and all others leave the stack alone; `light` tells which expressions may match an empty text. -/
def Expr.reserveAfter (users : List String) (light : Expr → Reserve → Bool)
    (rule : String → Reserve → Reserve) : Expr → Reserve → Reserve
  | .text _, r | .anyCase _, r | .range .., r | .peek .., r => r
  | .ref name, r =>
    match name with
    | "POP" | "DROP" => r.drop
    | "POP_ALL" => .empty
    | _ => if users.contains name then rule name r else r
  | .push body, r => (body.reserveAfter users light rule r).push (light body r)
  | .ahead _, r | .notAhead _, r => r
  | .repeated body _, r => r.join (body.reserveAfter users light rule r)
  | .seq left right, r =>
    right.reserveAfter users light rule (left.reserveAfter users light rule r)
  | .choice left right, r =>
    (left.reserveAfter users light rule r).join (right.reserveAfter users light rule r)

/-- What is known about the stack behind an expression, where `users` are the rules that use the
stack. -/
def reserveBehind (ds : List Definition) (users : List String) (e : Expr) (r : Reserve) : Reserve :=
  let after := Expr.reserveAfter users (standsStill ds [])
  after (throughRules ds (fun _ => Reserve.unknown) after ds.length []) e r

/-- The parts of an expression, each in front of its own parts and with what is known about the
stack when it starts. -/
def Term.reserves (behind : Expr → Reserve → Reserve) : Term → Reserve → List (Term × Reserve)
  | .leaf span e fault, r => [(.leaf span e fault, r)]
  | .push span body, r => (.push span body, r) :: body.reserves behind r
  | .ahead span body, r => (.ahead span body, r) :: body.reserves behind r
  | .notAhead span body, r => (.notAhead span body, r) :: body.reserves behind r
  | .repeated span body times fault, r =>
    (.repeated span body times fault, r) :: body.reserves behind r
  | .seq span left right, r =>
    (.seq span left right, r) ::
      (left.reserves behind r ++ right.reserves behind (behind left.expr r))
  | .choice span left right, r =>
    (.choice span left right, r) :: (left.reserves behind r ++ right.reserves behind r)
  | .flawed _ body, r => body.reserves behind r

end GrammarKit.Peg
