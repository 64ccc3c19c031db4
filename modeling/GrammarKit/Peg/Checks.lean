import GrammarKit.Peg.Builtin
import GrammarKit.Peg.Plan
import GrammarKit.Peg.Progress
import GrammarKit.Peg.Reader
import GrammarKit.Peg.Report

/-!
# Checks on grammars

A grammar that has been read is checked in stages, each on the condition that the ones before
found nothing: names, numbers, and expressions that would run without end.

* `leftRecursion?`: a rule that comes back to itself before anything is matched.
* `GrammarFault`, `Report.ofFault`: what the checks find.
* `compileGrammar`: reads and checks a grammar text.
-/

namespace GrammarKit.Peg

/-! ## Left recursion -/

/-- The first use, leftmost and depth first, that comes back to the rule at which the trail
started; `enter` looks into the other rules. The trail ends with the rule looked into. -/
def Term.comesBack (ds : List Definition) (trail : List String)
    (enter : String → Option (Span × List String)) : Term → Option (Span × List String)
  | .leaf span (.ref name) _ =>
    if trail.head? = some name then some (span, trail ++ [name])
    else if trail.contains name then none
    else enter name
  | .leaf .. => none
  | .seq _ left right =>
    let here := trail.getLast?.toList
    if cannotFail ds here left.expr || standsStill ds here left.expr .unknown then
      match left.comesBack ds trail enter with
      | some found => some found
      | none => right.comesBack ds trail enter
    else left.comesBack ds trail enter
  | .choice _ left right =>
    match left.comesBack ds trail enter with
    | some found => some found
    | none => right.comesBack ds trail enter
  | .repeated _ body _ _ => body.comesBack ds trail enter
  | .push _ body | .ahead _ body | .notAhead _ body => body.comesBack ds trail enter
  | .flawed _ body => body.comesBack ds trail enter

/-- `Term.comesBack` on the rule `name` at the end of the trail, through at most `n` rules. -/
def ruleComesBack (ds : List Definition) : Nat → List String → String → Option (Span × List String)
  | 0, _, _ => none
  | n + 1, trail, name =>
    (bodyOf? ds name).bind fun body =>
      body.comesBack ds (trail ++ [name]) (ruleComesBack ds n (trail ++ [name]))

/-- The use at which a rule comes back to itself, with the rules on the way. -/
def leftRecursion? (ds : List Definition) (d : Definition) : Option (Span × List String) :=
  ruleComesBack ds ds.length [] d.name

/-! ## Faults -/

/-- What is wrong with a grammar. -/
inductive GrammarFault where
  | keyword (name : String)
  | repeatedRule (name : String)
  | undefinedRule (name : String)
  | value (fault : ValueFault)
  | endlessRepetition
  | idleRepetition
  | deadChoice
  | endlessBlanks (name : String)
  | idleBlanks (name : String)
  | leftRecursive (written : String) (chain : List String)
deriving Repr, DecidableEq

/-- The wording of a fault. -/
def GrammarFault.message : GrammarFault → String
  | keyword name => name ++ " is a pest keyword"
  | repeatedRule name => "rule " ++ name ++ " already defined"
  | undefinedRule name => "rule " ++ name ++ " is undefined"
  | value .zeroTimes => "cannot repeat 0 times"
  | value .hugeCount => "number cannot overflow u32"
  | value .literalPush => "PUSH_LITERAL requires feature grammar-extras"
  | value .hugeBound => "number cannot overflow i32"
  | value .noCharacter => "incorrect literal"
  | value .leadingBar => "missing alternative"
  | endlessRepetition => "expression inside repetition cannot fail and will repeat infinitely"
  | idleRepetition => "expression inside repetition is non-progressing and will repeat infinitely"
  | deadChoice => "expression cannot fail; following choices cannot be reached"
  | endlessBlanks name => name ++ " cannot fail and will repeat infinitely"
  | idleBlanks name => name ++ " is non-progressing and will repeat infinitely"
  | leftRecursive written chain =>
    "rule " ++ written ++ " is left-recursive (" ++ " -> ".intercalate chain ++
      "); pest::pratt_parser might be useful in this case"

/-- Whether a fault leaves a part of the grammar without any meaning. -/
def GrammarFault.isFatal : GrammarFault → Bool
  | value fault => fault.isFatal
  | _ => false

/-- A fault with its place. -/
abbrev Finding := GrammarFault × Span

/-- The rules defined more than once, at every definition but the first. -/
def repeatedRules : List String → List Definition → List Finding
  | _, [] => []
  | seen, d :: ds =>
    if d.name ∈ seen then (.repeatedRule d.name, d.nameSpan) :: repeatedRules seen ds
    else repeatedRules (d.name :: seen) ds

/-- Faults of names. -/
def nameFaults (ds : List Definition) : List Finding :=
  ds.filterMap (fun d =>
    if d.name ∈ keywords then some (.keyword d.name, d.nameSpan) else none) ++
  repeatedRules [] ds ++
  (ds.flatMap fun d => d.body.uses).filterMap fun (name, span) =>
    if (bodyOf? ds name).isSome || isBuiltin name then none else some (.undefinedRule name, span)

/-- The first fault of a single part: within a rule, a fatal one goes first. -/
def valueFault? (ds : List Definition) : Option Finding :=
  ds.findSome? fun d =>
    let faults := d.body.faults
    (faults.find? (·.1.isFatal) <|> faults.head?).map fun (fault, span) =>
      (.value fault, span)

/-- The fault of a repetition without end, given what is known about the stack in front of it. -/
def repetitionFault? (ds : List Definition) : Term × Reserve → Option Finding
  | (.repeated span body times _, r) =>
    match times with
    | .star | .plus | .atLeast _ =>
      if cannotFail ds [] body.expr then some (.endlessRepetition, span)
      else if standsStill ds [] body.expr r then some (.idleRepetition, span)
      else none
    | _ => none
  | _ => none

/-- The fault of an alternative that hides the ones behind it. -/
def choiceFault? (ds : List Definition) : Term → Option Finding
  | .choice _ left _ =>
    let last := match left with
      | .choice _ _ right => right
      | _ => left
    if cannotFail ds [] last.expr then some (.deadChoice, last.span) else none
  | _ => none

/-- The fault of a rule for blanks. -/
def blanksFault? (ds : List Definition) (d : Definition) : Option Finding :=
  if d.name = "WHITESPACE" ∨ d.name = "COMMENT" then
    if cannotFail ds [] d.body.expr then some (.endlessBlanks d.name, d.body.span)
    else if standsStill ds [] d.body.expr .unknown then some (.idleBlanks d.name, d.body.span)
    else none
  else none

/-- The fault of a rule that comes back to itself, named as it is written there. -/
def recursionFault? (source : List Char) (ds : List Definition) (d : Definition) :
    Option Finding :=
  (leftRecursion? ds d).map fun (span, chain) =>
    (.leftRecursive (String.ofList (span.cut source)) chain, span)

/-- Faults of expressions, in the order of their places. -/
def runFaults (source : List Char) (ds : List Definition) : List Finding :=
  let behind := reserveBehind ds (stackUsers ds ds.length [])
  let parts := ds.flatMap fun d => d.body.parts
  let placed := ds.flatMap fun d => d.body.reserves behind .unknown
  (placed.filterMap (repetitionFault? ds) ++ parts.filterMap (choiceFault? ds) ++
    ds.filterMap (blanksFault? ds) ++ ds.filterMap (recursionFault? source ds)).mergeSort
    fun a b => a.2.atMost b.2

/-- The faults of a grammar: those of the first stage that finds any. -/
def grammarFaults (source : List Char) (ds : List Definition) : List Finding :=
  match nameFaults ds with
  | [] =>
    match valueFault? ds with
    | some fault => [fault]
    | none => runFaults source ds
  | faults => faults

/-! ## Compiling -/

/-- The order of the names of failed attempts on a grammar text. -/
def syntaxNames : List String :=
  ["EOI", "grammar_rules", "grammar_rule", "assignment_operator", "opening_brace",
    "closing_brace", "opening_paren", "closing_paren", "opening_brack", "closing_brack",
    "modifier", "silent_modifier", "atomic_modifier", "compound_atomic_modifier",
    "non_atomic_modifier", "tag_id", "node_tag", "expression", "term", "node", "terminal",
    "prefix_operator", "infix_operator", "postfix_operator", "positive_predicate_operator",
    "negative_predicate_operator", "sequence_operator", "choice_operator", "optional_operator",
    "repeat_operator", "repeat_once_operator", "repeat_exact", "repeat_min", "repeat_max",
    "repeat_min_max", "number", "integer", "comma", "_push", "_push_literal", "peek_slice",
    "identifier", "alpha", "alpha_num", "string", "insensitive_string", "range", "character",
    "inner_str", "inner_chr", "escape", "code", "unicode", "hex_digit", "quote", "single_quote",
    "range_operator", "newline", "WHITESPACE", "line_comment", "block_comment", "COMMENT", "space",
    "grammar_doc", "line_doc", "inner_doc"]

/-- The report of failed attempts on a grammar text. -/
def syntaxReport (a : Attempts) : Report where
  location := .place a.left
  message := a.message (fun x y => syntaxNames.idxOf x ≤ syntaxNames.idxOf y) id

/-- The report of a fault. -/
def Report.ofFinding (f : Finding) : Report := ⟨.piece f.2, f.1.message⟩

/-- Why a grammar text gives no rules. -/
inductive GrammarError where
  /-- It breaks the rules of grammar texts. -/
  | refused (reports : List String)
  /-- A part of it has no meaning at all. -/
  | senseless
deriving Repr, DecidableEq

/-- **The rules of a grammar text**, if it can be read and passes all checks. -/
def compileGrammar (text : String) : Except GrammarError (List Rule) :=
  match readGrammar text.toList with
  | .error a => .error (.refused [(syntaxReport a).render text.toList])
  | .ok ds =>
    match grammarFaults text.toList ds with
    | [] =>
      if ds.any (·.body.expr.countsTooFar) then .error .senseless
      else .ok (ds.map Definition.rule)
    | faults =>
      if faults.any (·.1.isFatal) then .error .senseless
      else .error (.refused (faults.map fun f => (Report.ofFinding f).render text.toList))

end GrammarKit.Peg
