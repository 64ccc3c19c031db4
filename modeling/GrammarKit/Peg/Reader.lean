import GrammarKit.Peg.Lexeme

/-!
# Reading grammar texts

A grammar text is a list of rules `name = modifier { expression }`. Comments of three slashes may
stand in place of a rule, and those of two slashes and an exclamation mark in front of all rules.

* `expression`: an expression, given a reader for the expressions between its parentheses.
* `definition`: a rule.
* `readGrammar`: all rules of a text.
-/

namespace GrammarKit.Peg

open Reader

/-! ## Terminals -/

/-- A rule's name in an expression. -/
def identifier : Reader (String × Span) := named "identifier" (located (plain name?))

/-- The text of characters, if all of them have one. -/
def textOf? (cs : List (Option Char)) : Option String := (cs.mapM id).map String.ofList

/-- A text between quotes, with its place. -/
def quoted : Reader (Option String × Span) := named "string" <| located do
  let _ ← sign "quote" "\""
  let cs ← plain fun s => some (innerText s.length s)
  let _ ← sign "quote" "\""
  return textOf? cs

/-- A character between single quotes, with its place. -/
def character : Reader (Option Char × Span) := named "character" <| located do
  let _ ← sign "single_quote" "'"
  let c ← named "inner_chr" (plain innerChar?)
  let _ ← sign "single_quote" "'"
  return c

/-- The fault of a literal without a value. -/
def missing {α : Type} (value : Option α) (span : Span) : Option (ValueFault × Span) :=
  if value.isNone then some (.noCharacter, span) else none

/-- A remembered text, which can be written and is always refused. -/
def pushedText : Reader Term := named "_push_literal" do
  let (_, span) ← located do
    literal "PUSH_LITERAL"; gap
    let _ ← sign "opening_paren" "("; gap
    let _ ← quoted; gap
    let _ ← sign "closing_paren" ")"
  return .leaf span (.text "") (some (.literalPush, span))

/-- An expression as its reader finds it: whether a sign of choice stands in front, and the rest. -/
structure Opened where
  hasBar : Bool
  body : Term

/-- The expression inside parentheses, where no sign may stand in front. -/
def Opened.inside (e : Opened) : Term := if e.hasBar then .flawed .leadingBar e.body else e.body

/-- A remembered match. -/
def pushed (inner : Reader Opened) : Reader Term := named "_push" do
  let (body, span) ← located do
    literal "PUSH"; gap
    let _ ← sign "opening_paren" "("; gap
    let e ← inner; gap
    let _ ← sign "closing_paren" ")"
    return e.inside
  return .push (span.upTo body.span) body

/-- A bound: digits, or a negative number other than zero. -/
def bound? (s : List Char) : Option (Int × List Char) :=
  match s with
  | '-' :: t =>
    match digits? t with
    | some (digits, rest) => if number digits = 0 then none else some (-(number digits : Int), rest)
    | none => none
  | _ => (digits? s).map fun (digits, rest) => ((number digits : Int), rest)

/-- The fault of a bound that takes more than 32 bits. -/
def hugeBound? (n : Option (Int × Span)) : Option (ValueFault × Span) :=
  n.bind fun (n, span) =>
    if n < -0x80000000 ∨ 0x7FFFFFFF < n then some (.hugeBound, span) else none

/-- A slice of the remembered texts. -/
def peekSlice : Reader Term := named "peek_slice" do
  let bound := named "integer" (located (plain bound?))
  let ((first, last), span) ← located do
    literal "PEEK"; gap
    let _ ← sign "opening_brack" "["; gap
    let first ← opt bound; gap
    let _ ← sign "range_operator" ".."; gap
    let last ← opt bound; gap
    let _ ← sign "closing_brack" "]"
    return (first, last)
  return .leaf span (.peek ((first.map Prod.fst).getD 0) (last.map Prod.fst))
    (hugeBound? first <|> hugeBound? last)

/-- The text of a literal for upper and lower case: what is written between its first two
characters and its last one, so that a gap behind the caret is a part of the text. -/
def anyCaseText? (written : List Char) : Option String :=
  (unescape? written.length written).map fun cs => String.ofList (cs.drop 2).dropLast

/-- A text in upper or lower case. -/
def anyCase : Reader Term := named "insensitive_string" fun s a =>
  match (located (do literal "^"; gap; quoted)) s a with
  | ⟨a, some ((_, span), rest)⟩ =>
    let text := anyCaseText? (s.take (s.length - rest.length))
    ⟨a, some (.leaf span (.anyCase (text.getD "")) (missing text span), rest)⟩
  | ⟨a, none⟩ => ⟨a, none⟩

/-- Two characters and all between them. -/
def charRange : Reader Term := named "range" do
  let (first, a) ← character; gap
  let _ ← sign "range_operator" ".."; gap
  let (last, b) ← character
  return .leaf (a.upTo b) (.range (first.getD default) (last.getD default))
    (missing first a <|> missing last b)

/-- What stands for itself in an expression. -/
def terminal (inner : Reader Opened) : Reader Term := firstOf
  [pushedText, pushed inner, peekSlice,
    do let (name, span) ← identifier; return .leaf span (.ref name) none,
    do let (s, span) ← quoted; return .leaf span (.text (s.getD "")) (missing s span),
    anyCase, charRange]

/-! ## Repetitions -/

/-- A sign behind a repeated expression, with its end and the fault of its numbers. -/
structure Postfix where
  times : Times
  span : Span
  fault : Option (ValueFault × Span) := none

/-- A count, with its place. -/
def count : Reader (Nat × Span) := named "number" (located (plain fun s =>
  (digits? s).map fun (digits, rest) => (number digits, rest)))

/-- The fault of a count that takes more than 32 bits. -/
def hugeCount? (n : Nat × Span) : Option (ValueFault × Span) :=
  if 0xFFFFFFFF < n.1 then some (.hugeCount, n.2) else none

/-- The fault of a count of zero. -/
def zeroCount? (n : Nat × Span) : Option (ValueFault × Span) :=
  if n.1 = 0 then some (.zeroTimes, n.2) else none

/-- Counts between braces. -/
def braced {α : Type} (name : String) (r : Reader α) : Reader (α × Span) := named name <| located do
  let _ ← sign "opening_brace" "\x7b"; gap
  let x ← r; gap
  let _ ← sign "closing_brace" "\x7d"
  return x

/-- A sign behind a repeated expression. -/
def postfixSign : Reader Postfix := firstOf
  [do return { times := .optional, span := ← sign "optional_operator" "?" },
    do return { times := .star, span := ← sign "repeat_operator" "*" },
    do return { times := .plus, span := ← sign "repeat_once_operator" "+" },
    do
      let (n, span) ← braced "repeat_exact" count
      return { times := .exactly n.1, span, fault := hugeCount? n <|> zeroCount? n },
    do
      let (n, span) ← braced "repeat_min" do
        let n ← count; gap
        let _ ← sign "comma" ","
        return n
      return { times := .atLeast n.1, span, fault := hugeCount? n },
    do
      let (n, span) ← braced "repeat_max" do
        let _ ← sign "comma" ","; gap
        count
      return { times := .atMost n.1, span, fault := hugeCount? n <|> zeroCount? n },
    do
      let ((n, m), span) ← braced "repeat_min_max" do
        let n ← count; gap
        let _ ← sign "comma" ","; gap
        let m ← count
        return (n, m)
      return {
        times := .between n.1 m.1
        span
        fault := hugeCount? n <|> hugeCount? m <|> zeroCount? m }]

/-- The expression with a sign behind it. -/
def Postfix.apply (body : Term) (p : Postfix) : Term :=
  .repeated (body.span.upTo p.span) body p.times p.fault

/-! ## Expressions -/

/-- A sign in front of an expression: whether it looks ahead for the expression not to match. -/
def lookaheadSign : Reader (Bool × Span) := orElse
  (do return (false, ← sign "positive_predicate_operator" "&"))
  (do return (true, ← sign "negative_predicate_operator" "!"))

/-- A tag in front of an expression, which has no effect. -/
def tag : Reader Unit := do
  let _ ← named "tag_id" (plain fun s => match s with
    | '#' :: c :: t => if startsName c then some ((), t.dropWhile continuesName) else none
    | _ => none)
  gap
  let _ ← sign "assignment_operator" "="

/-- An expression between parentheses, with their places. -/
def parenthesized (inner : Reader Opened) : Reader (Term × Option (Span × Span)) := do
  let first ← sign "opening_paren" "("; gap
  let e ← inner; gap
  let last ← sign "closing_paren" ")"
  return (e.inside, some (first, last))

/-- The signs behind an expression, which reaches up to its closing parenthesis; the whole starts
at the opening one. -/
def withPostfixes (body : Term) (parens : Option (Span × Span)) (signs : List Postfix) : Term :=
  match parens with
  | none => signs.foldl Postfix.apply body
  | some (first, last) =>
    let t := signs.foldl Postfix.apply (body.withSpan (body.span.upTo last))
    t.withSpan (first.upTo t.span)

/-- The signs in front of an expression. -/
def withLookaheads (signs : List (Bool × Span)) (body : Term) : Term :=
  signs.foldr (fun (negated, span) t =>
    if negated then .notAhead (span.upTo t.span) t else .ahead (span.upTo t.span) t) body

/-- An expression without infix signs. -/
def operand (inner : Reader Opened) : Reader Term := named "term" do
  let _ ← opt tag; gap
  let lookaheads ← many lookaheadSign; gap
  let (body, parens) ← orElse (parenthesized inner)
    (do return (← terminal inner, none))
  gap
  let postfixes ← many postfixSign
  return withLookaheads lookaheads (withPostfixes body parens postfixes)

/-- An infix sign: whether it is a choice. -/
def infixSign : Reader Bool := orElse
  (do let _ ← sign "sequence_operator" "~"; return false)
  (do let _ ← sign "choice_operator" "|"; return true)

/-- Operands joined by infix signs: choices of sequences, both from the left. The choice so far
and the sequence so far come first. -/
def join (choices : Option Term) (sequence : Term) : List (Bool × Term) → Term
  | [] => match choices with
    | none => sequence
    | some c => .choice (c.span.upTo sequence.span) c sequence
  | (false, t) :: rest => join choices (.seq (sequence.span.upTo t.span) sequence t) rest
  | (true, t) :: rest => join (some (join choices sequence [])) t rest

/-- An expression, given a reader for the ones between its parentheses. -/
def expressionOf (inner : Reader Opened) : Reader Opened := named "expression" do
  let bar ← opt (sign "choice_operator" "|"); gap
  let first ← operand inner; gap
  let rest ← many do
    let isChoice ← infixSign; gap
    let t ← operand inner
    return (isChoice, t)
  return ⟨bar.isSome, join none first rest⟩

/-- An expression whose parentheses nest less deep than `depth`. -/
def expression : (depth : Nat) → Reader Opened
  | 0 => fail
  | depth + 1 => fun s a => expressionOf (expression depth) s a

/-! ## Rules -/

/-- The kind of a rule. -/
def modifier : Reader RuleKind := firstOf
  [do let _ ← sign "silent_modifier" "_"; return .silent,
    do let _ ← sign "atomic_modifier" "@"; return .atomic,
    do let _ ← sign "compound_atomic_modifier" "$"; return .compound,
    do let _ ← sign "non_atomic_modifier" "!"; return .nonAtomic]

/-- A comment that documents a rule. -/
def ruleDoc : Reader Unit := named "line_doc" do
  literal "///"
  plain fun s => some ((), dropLine s)

/-- A comment that documents the grammar. -/
def grammarDoc : Reader Unit := named "grammar_doc" do
  literal "//!"
  plain fun s => some ((), dropLine s)

/-- A rule, or a comment that documents one. -/
def definition (depth : Nat) : Reader (Option Definition) := named "grammar_rule" <| orElse
  (do
    let (name, nameSpan) ← identifier; gap
    let _ ← sign "assignment_operator" "="; gap
    let kind ← opt modifier; gap
    let _ ← sign "opening_brace" "\x7b"; gap
    let e ← expression depth; gap
    let _ ← sign "closing_brace" "\x7d"
    return some { name, nameSpan, kind := kind.getD .normal, body := e.body })
  (do ruleDoc; return none)

/-- The end of the text. -/
def finish : Reader Unit := named "EOI" (plain fun s => if s.isEmpty then some ((), []) else none)

/-- All rules of a text. -/
def definitions (depth : Nat) : Reader (List Definition) := do
  gap
  let _ ← many grammarDoc; gap
  let rules ← many (definition depth); gap
  finish
  return rules.filterMap id

/-- **The rules of a grammar text**, or the failed attempts at the furthest place. -/
def readGrammar (text : List Char) : Except Attempts (List Definition) :=
  match definitions (text.length + 1) text (Attempts.none text.length) with
  | ⟨_, some (rules, _)⟩ => .ok rules
  | ⟨a, none⟩ => .error a

end GrammarKit.Peg
