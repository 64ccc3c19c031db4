import GrammarKit.Peg.Attempts
import GrammarKit.Peg.Builtin
import GrammarKit.Peg.Plan

/-!
# Running a grammar

A plan matches at the front of a text, or fails there. A choice takes the first alternative that
matches, and a repetition takes all it can; neither comes back. Between the parts of a sequence,
blanks are skipped unless the rule is atomic. Texts can be remembered on a stack; a sequence that
fails leaves the stack as it was before.

* `Tree`: what a rule has matched.
* `State`, `Outcome`: what is left of the text, and how a step ends.
* `Plan.run`: a plan, given what calling a rule does.
* `runRule`: a rule of a grammar, through a bounded number of nested calls.
* `parseWith`: a whole text.
-/

namespace GrammarKit.Peg

/-- **What a rule has matched**: its name, the characters left at its start, its text and parts. -/
inductive Tree where
  | node (name : String) (left : Nat) (text : String) (parts : List Tree)
deriving Repr, Inhabited

namespace Tree

/-- The rule that matched. -/
def name : Tree → String
  | node name .. => name

/-- The parts of a tree. -/
def parts : Tree → List Tree
  | node _ _ _ parts => parts

end Tree

/-- Whether blanks are skipped, and whether trees are shown. -/
inductive Atomicity where
  /-- Blanks are skipped, trees are shown. -/
  | loose
  /-- No blanks are skipped, trees are shown. -/
  | compound
  /-- No blanks are skipped, no trees are shown. -/
  | atomic
deriving Repr, DecidableEq

/-- Whether a step only looks ahead, and whether it should match. -/
inductive Look where
  | none
  | ahead
  | notAhead
deriving Repr, DecidableEq

/-- Inside a look-ahead. -/
def Look.inside (look : Look) (negated : Bool) : Look :=
  match negated, look with
  | false, .notAhead => .notAhead
  | false, _ => .ahead
  | true, .notAhead => .ahead
  | true, _ => .notAhead

/-- The surroundings of a step. -/
structure Context where
  atomicity : Atomicity := .loose
  look : Look := .none
deriving Repr, DecidableEq

/-- Whether the rules called here are shown in trees. -/
def Context.showsTrees (ctx : Context) : Bool := ctx.look = .none && ctx.atomicity ≠ .atomic

/-- What a step finds: the rest of the text, the remembered texts with the latest one first, and
the failed attempts so far. -/
structure State where
  rest : List Char
  stack : List String := []
  attempts : Attempts
deriving Repr, DecidableEq

/-- **How a step ends.** A step that fails leaves the text alone, but may have taken from the
stack. -/
inductive Outcome where
  | matched (trees : List Tree) (state : State)
  | failed (stack : List String) (attempts : Attempts)
  /-- No answer: too many nested calls, a loop without progress, or a missing rule or text. -/
  | stuck
deriving Repr

/-- A step of a run. -/
abbrev Run := State → Outcome

namespace Outcome

/-- Goes on with `next` if the step matched. -/
def andThen (o : Outcome) (next : Run) : Outcome :=
  match o with
  | matched trees st =>
    match next st with
    | matched more st => matched (trees ++ more) st
    | o => o
  | o => o

end Outcome

/-- The state in which another step follows one that failed. -/
def State.afterFailure (st : State) (stack : List String) (attempts : Attempts) : State :=
  { st with stack, attempts }

namespace Run

/-- Fails where it stands. -/
def fail : Run := fun st => .failed st.stack st.attempts

/-- The step, after whose failure the stack is as it was before. -/
def undoing (r : Run) : Run := fun st =>
  match r st with
  | .failed _ a => .failed st.stack a
  | o => o

/-- The first step, then the second; if the second fails, the first one is undone. -/
def seq (r t : Run) : Run := undoing fun st => (r st).andThen t

/-- The first step, or else the second. -/
def choice (r t : Run) : Run := fun st =>
  match r st with
  | .failed stack a => t (st.afterFailure stack a)
  | o => o

/-- The step if it matches. -/
def optional (r : Run) : Run := fun st =>
  match r st with
  | .failed stack a => .matched [] (st.afterFailure stack a)
  | o => o

/-- The step as often as it matches, at most `n` times without taking a character, and each of
these times has to take from the stack. Once a character is taken, `again` goes on. -/
def loopFrom (r again : Run) : (n : Nat) → Run
  | 0, _ => .stuck
  | n + 1, st =>
    match r st with
    | .failed stack a => .matched [] (st.afterFailure stack a)
    | .stuck => .stuck
    | .matched trees next =>
      if next.rest.length < st.rest.length then (Outcome.matched trees next).andThen again
      else if next.stack.length < st.stack.length then
        (Outcome.matched trees next).andThen (loopFrom r again n)
      else .stuck

/-- The step as often as it matches, taking fewer than `n` characters. Every time has to get on. -/
def loop (r : Run) : (n : Nat) → Run
  | 0, _ => .stuck
  | n + 1, st => loopFrom r (loop r n) (st.stack.length + 1) st

/-- The step as often as it matches. -/
def star (r : Run) : Run := fun st => loop r (st.rest.length + 1) st

/-- A step that takes the text `w`. -/
def text (w : List Char) : Run := fun st =>
  if w.isPrefixOf st.rest then .matched [] { st with rest := st.rest.drop w.length }
  else fail st

/-- A step that takes a character of a class. -/
def char (p : Char → Bool) : Run := fun st =>
  match st.rest with
  | c :: rest => if p c then .matched [] { st with rest } else fail st
  | [] => fail st

/-- A step that takes the text `w` in upper or lower case. -/
def anyCase (w : List Char) : Run := fun st =>
  let front := st.rest.take w.length
  if front.map Char.toLower = w.map Char.toLower then
    .matched [] { st with rest := st.rest.drop w.length }
  else fail st

/-- The text from the first of the `stops` on, or the end of it. -/
def dropUpTo (stops : List (List Char)) : List Char → List Char
  | [] => []
  | c :: s => if stops.any (·.isPrefixOf (c :: s)) then c :: s else dropUpTo stops s

/-- A step that takes all characters up to one of the `stops`. -/
def upTo (stops : List (List Char)) : Run := fun st =>
  .matched [] { st with rest := dropUpTo stops st.rest }

/-- A step that only looks ahead for `r`. -/
def ahead (r : Run) : Run := fun st =>
  match r st with
  | .matched _ next => .matched [] { st with attempts := next.attempts }
  | .failed _ a => .failed st.stack a
  | .stuck => .stuck

/-- A step that only looks ahead for `r` not to match. -/
def notAhead (r : Run) : Run := fun st =>
  match r st with
  | .matched _ next => .failed st.stack next.attempts
  | .failed _ a => .matched [] { st with attempts := a }
  | .stuck => .stuck

/-- A step whose text is remembered. -/
def push (r : Run) : Run := fun st =>
  match r st with
  | .matched trees next =>
    .matched trees { next with
      stack := String.ofList (st.rest.take (st.rest.length - next.rest.length)) :: next.stack }
  | o => o

/-- A step that takes remembered texts in the given order. -/
def texts (ws : List String) : Run := text (ws.flatMap String.toList)

/-- A step that takes all remembered texts off the stack, the latest one first. The text at which
it fails is taken off as well. -/
def popAll : List String → Run
  | [] => fun st => .matched [] st
  | w :: ws => fun st => (text w.toList { st with stack := ws }).andThen (popAll ws)

/-- The place in a stack of `size` texts that a bound means; negative ones count from the top. -/
def bound? (size : Nat) (n : Int) : Option Nat :=
  if (size : Int) < n then none
  else if 0 ≤ n then some n.toNat
  else if 0 ≤ (size : Int) + n then some ((size : Int) + n).toNat
  else none

/-- A step that takes a slice of the remembered texts, the oldest first. -/
def peek (first : Int) (last : Option Int) : Run := fun st =>
  let size := st.stack.length
  match bound? size first, (match last with
    | some n => bound? size n
    | none => some size) with
  | some i, some j => texts ((st.stack.reverse.drop i).take (j - i)) st
  | _, _ => fail st

/-- The step as often as it matches, with `gap` between the times. -/
def starWith (gap r : Run) : Run := optional fun st => (r st).andThen (star (gap.seq r))

end Run

/-! ## Plans and rules -/

/-- A plan, given what a gap and a rule's name do in their surroundings. -/
def Plan.run (gap : Context → Run) (call : Context → String → Run) (ctx : Context) : Plan → Run
  | .text s => Run.text s.toList
  | .anyCase s => Run.anyCase s.toList
  | .range first last => Run.char fun c => first ≤ c && c ≤ last
  | .ref name => call ctx name
  | .peek first last => Run.peek first last
  | .push body => Run.push (body.run gap call ctx)
  | .ahead body => Run.ahead (body.run gap call { ctx with look := ctx.look.inside false })
  | .notAhead body => Run.notAhead (body.run gap call { ctx with look := ctx.look.inside true })
  | .optional body => Run.optional (body.run gap call ctx)
  | .star body => Run.starWith (gap ctx) (body.run gap call ctx)
  | .upTo stops => Run.upTo (stops.map String.toList)
  | .seq left right =>
    (left.run gap call ctx).seq ((gap ctx).seq (right.run gap call ctx))
  | .choice left right => (left.run gap call ctx).choice (right.run gap call ctx)
  | .undoing body => Run.undoing (body.run gap call ctx)

/-- A rule with a name: what it matches is shown as a tree, and its failure is remembered. -/
def Run.shown (ctx : Context) (name : String) (r : Run) : Run := fun st =>
  let remember (a : Attempts) (negated : Bool) : Attempts :=
    if ctx.atomicity = .atomic ∨ decide (ctx.look = .notAhead) ≠ negated then a
    else a.record st.attempts st.rest.length name negated
  match r st with
  | .matched trees next =>
    let next := { next with attempts := remember next.attempts true }
    if ctx.showsTrees then
      .matched [.node name st.rest.length
        (String.ofList (st.rest.take (st.rest.length - next.rest.length))) trees] next
    else .matched trees next
  | .failed stack a => .failed stack (remember a false)
  | .stuck => .stuck

/-- The end of the text. -/
def Run.finish : Run := fun st => if st.rest.isEmpty then .matched [] st else fail st

/-- What the rules that every grammar has do, in a text of `length` characters. -/
def builtinRun? (length : Nat) (ctx : Context) (name : String) : Option Run :=
  match name with
  | "ANY" => some (Run.char fun _ => true)
  | "EOI" => some (Run.finish.shown ctx "EOI")
  | "SOI" => some fun st => if st.rest.length = length then .matched [] st else Run.fail st
  | "NEWLINE" =>
    some ((Run.text ['\n']).choice ((Run.text ['\r', '\n']).choice (Run.text ['\r'])))
  | "PEEK" => some fun st =>
    match st.stack with
    | s :: _ => Run.text s.toList st
    | [] => .stuck
  | "POP" => some fun st =>
    match st.stack with
    | s :: stack => Run.text s.toList { st with stack }
    | [] => .stuck
  | "PEEK_ALL" => some fun st => Run.texts st.stack st
  | "POP_ALL" => some fun st => Run.popAll st.stack st
  | "DROP" => some fun st =>
    match st.stack with
    | _ :: stack => .matched [] { st with stack }
    | [] => Run.fail st
  | _ => (asciiClass? name).map Run.char

/-- The routine of a name. -/
def routineNamed? (routines : List Routine) (name : String) : Option Routine :=
  routines.find? (·.name = name)

/-- Blanks and comments, unless the surroundings skip none. -/
def gapRun (routines : List Routine) (call : Context → String → Run) (ctx : Context) : Run :=
  fun st =>
    if ctx.atomicity ≠ .loose then .matched [] st
    else
      let blanks := call ctx "WHITESPACE"
      let comment := call ctx "COMMENT"
      match routineNamed? routines "WHITESPACE", routineNamed? routines "COMMENT" with
      | none, none => .matched [] st
      | some _, none => blanks.star st
      | none, some _ => comment.star st
      | some _, some _ => (blanks.star.seq (comment.seq blanks.star).star) st

/-- Whether a rule is the one for blanks or for comments. -/
def Routine.isGap (r : Routine) : Bool := r.name = "WHITESPACE" || r.name = "COMMENT"

/-- A rule of a grammar, given how to run its plan in its surroundings. -/
def Routine.run (r : Routine) (ctx : Context) (body : Context → Run) : Run :=
  let inner : Context := { ctx with atomicity := .atomic }
  let compound : Context := { ctx with atomicity := .compound }
  let loose : Context := { ctx with atomicity := .loose }
  match r.kind with
  | .normal => (body (if r.isGap then inner else ctx)).shown ctx r.name
  | .silent => body (if r.isGap then inner else ctx)
  | .atomic => (body inner).shown ctx r.name
  | .compound => (body compound).shown compound r.name
  | .nonAtomic =>
    if r.isGap then (body inner).shown inner r.name else (body loose).shown loose r.name

/-- A rule by its name in a text of `length` characters, through fewer than `depth` nested
calls. -/
def runRule (routines : List Routine) (length : Nat) : (depth : Nat) → Context → String → Run
  | 0, _, _ => fun _ => .stuck
  | depth + 1, ctx, name => fun st =>
    let call := runRule routines length depth
    match builtinRun? length ctx name with
    | some r => r st
    | none =>
      match routineNamed? routines name with
      | some r => r.run ctx (fun ctx => r.plan.run (gapRun routines call) call ctx) st
      | none =>
        match unicodeClass? name with
        | some p => Run.char p st
        | none => .stuck

/-- The number of steps of a plan that add to the stack. -/
def Plan.pushes : Plan → Nat
  | .push body => body.pushes + 1
  | .ahead body | .notAhead body | .optional body | .star body | .undoing body => body.pushes
  | .seq left right | .choice left right => left.pushes + right.pushes
  | _ => 0

/-- The number of steps of a grammar that add to the stack. -/
def pushesOf (routines : List Routine) : Nat := routines.foldl (fun n r => n + r.plan.pushes) 0

/-- Nested calls that suffice for a grammar without left recursion: between two characters that
are taken, no rule is entered twice unless the stack becomes smaller. -/
def enoughDepth (routines : List Routine) (input : List Char) : Nat :=
  (routines.length + 2) * (input.length + 2) * (pushesOf routines + 1)

/-- **A whole text**, from the rule `start`. -/
def parseWith (routines : List Routine) (start : String) (input : List Char) : Outcome :=
  runRule routines input.length (enoughDepth routines input) {} start
    { rest := input, attempts := .none input.length }

/-- The wording of failed attempts on a text. -/
def Attempts.expectation (a : Attempts) : String :=
  a.message (fun x y => !(y < x)) fun name => "\"" ++ name ++ "\""

end GrammarKit.Peg
