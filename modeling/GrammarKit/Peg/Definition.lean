import GrammarKit.Peg.Expr

/-!
# Rules as they are written

A rule of a grammar text, with the places of its parts for the reports of the checks.

* `Span`: a piece of a text.
* `Term`: an expression with its places; `Term.expr` forgets them.
* `Definition`: a rule with its places.
* `Rule`, `Definition.rule`: a rule without them.
-/

namespace GrammarKit.Peg

/-- A piece of a text, by the characters that are left at its start and at its end. -/
structure Span where
  start : Nat
  stop : Nat
deriving Repr, DecidableEq, Inhabited

/-- The piece from the start of `a` to the end of `b`. -/
def Span.upTo (a b : Span) : Span := ⟨a.start, b.stop⟩

/-- Whether `a` comes no later than `b`: by their starts, then by their ends. -/
def Span.atMost (a b : Span) : Bool :=
  b.start < a.start || (a.start == b.start && b.stop ≤ a.stop)

/-- The characters of a piece of `source`. -/
def Span.cut (source : List Char) (a : Span) : List Char :=
  (source.drop (source.length - a.start)).take (a.start - a.stop)

/-- What is wrong with a part of an expression by itself. -/
inductive ValueFault where
  /-- Repeating no time. -/
  | zeroTimes
  /-- A count that takes more than 32 bits. -/
  | hugeCount
  /-- A text that is remembered without being matched. -/
  | literalPush
  /-- A bound that takes more than 32 bits, sign included. -/
  | hugeBound
  /-- A number that no character has. -/
  | noCharacter
  /-- A sign of choice with nothing before it, inside parentheses. -/
  | leadingBar
deriving Repr, DecidableEq

/-- Whether a fault leaves the part without any meaning, so that there is nothing to report on. -/
def ValueFault.isFatal : ValueFault → Bool
  | zeroTimes | hugeCount | literalPush => false
  | hugeBound | noCharacter | leadingBar => true

/-- **An expression with the places of its parts.** -/
inductive Term where
  | leaf (span : Span) (expr : Expr) (fault : Option (ValueFault × Span))
  | push (span : Span) (body : Term)
  | ahead (span : Span) (body : Term)
  | notAhead (span : Span) (body : Term)
  | repeated (span : Span) (body : Term) (times : Times) (fault : Option (ValueFault × Span))
  | seq (span : Span) (left right : Term)
  | choice (span : Span) (left right : Term)
  | flawed (fault : ValueFault) (body : Term)
deriving Repr, DecidableEq, Inhabited

namespace Term

/-- The place of an expression. -/
def span : Term → Span
  | leaf span .. | push span _ | ahead span _ | notAhead span _ | repeated span ..
  | seq span .. | choice span .. => span
  | flawed _ body => body.span

/-- The expression at another place, its parts left where they are. -/
def withSpan (span : Span) : Term → Term
  | leaf _ e fault => leaf span e fault
  | push _ body => push span body
  | ahead _ body => ahead span body
  | notAhead _ body => notAhead span body
  | repeated _ body times fault => repeated span body times fault
  | seq _ left right => seq span left right
  | choice _ left right => choice span left right
  | flawed fault body => flawed fault (body.withSpan span)

/-- The expression without places. -/
def expr : Term → Expr
  | leaf _ e _ => e
  | push _ body => .push body.expr
  | ahead _ body => .ahead body.expr
  | notAhead _ body => .notAhead body.expr
  | repeated _ body times _ => .repeated body.expr times
  | seq _ left right => .seq left.expr right.expr
  | choice _ left right => .choice left.expr right.expr
  | flawed _ body => body.expr

/-- The expression and all its parts, each in front of its own parts. -/
def parts : Term → List Term
  | leaf span e fault => [leaf span e fault]
  | push span body => push span body :: body.parts
  | ahead span body => ahead span body :: body.parts
  | notAhead span body => notAhead span body :: body.parts
  | repeated span body times fault => repeated span body times fault :: body.parts
  | seq span left right => seq span left right :: (left.parts ++ right.parts)
  | choice span left right => choice span left right :: (left.parts ++ right.parts)
  | flawed _ body => body.parts

/-- The faults of single parts, in the order of the text. -/
def faults : Term → List (ValueFault × Span)
  | leaf _ _ fault => fault.toList
  | push _ body | ahead _ body | notAhead _ body => body.faults
  | repeated _ body _ fault => body.faults ++ fault.toList
  | seq _ left right | choice _ left right => left.faults ++ right.faults
  | flawed fault body => (fault, body.span) :: body.faults

/-- The rules that are used, with their places. -/
def uses (t : Term) : List (String × Span) :=
  t.parts.filterMap fun
    | leaf span (.ref name) _ => some (name, span)
    | _ => none

end Term

/-- How a rule treats blanks between its parts and what it shows in a tree. -/
inductive RuleKind where
  /-- Skips blanks and shows a node. -/
  | normal
  /-- Shows no node of its own. -/
  | silent
  /-- Skips no blanks, and shows a node without parts. -/
  | atomic
  /-- Skips no blanks, and shows a node with its parts. -/
  | compound
  /-- Skips blanks even inside a rule that skips none. -/
  | nonAtomic
deriving Repr, DecidableEq, Inhabited

/-- A rule of a grammar. -/
structure Rule where
  name : String
  kind : RuleKind
  body : Expr
deriving Repr, DecidableEq, Inhabited

/-- **A rule with the places of its name and of its parts.** -/
structure Definition where
  name : String
  nameSpan : Span
  kind : RuleKind
  body : Term
deriving Repr, DecidableEq, Inhabited

/-- The rule without places. -/
def Definition.rule (d : Definition) : Rule := ⟨d.name, d.kind, d.body.expr⟩

end GrammarKit.Peg
