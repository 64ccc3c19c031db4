import GrammarKit.Code.Lexer
import GrammarKit.Config
import GrammarKit.Generation
import GrammarKit.Model.FirstSymbols
import GrammarKit.Peg.Definition
import GrammarKit.Regex.Lowering
import GrammarKit.Text.Lines

/-!
# The grammar of a model

A model becomes a grammar text with a rule per node: a token is an atomic rule, a deduction a
sequence of its elements with blanks between them, and a union a choice that shows no node of its
own.

* `Shape`: what the tree of a rule holds.
* `NodeRule`, `NodeRule.ofNode`: the rule of a node.
* `Grammar`: the generated grammar.
* `generateGrammar`: the grammar of a model, or what is wrong.
-/

namespace GrammarKit

/-- What the tree of a rule holds. -/
inductive Shape where
  /-- A text. -/
  | token
  /-- One part per element; some are kept under a property. -/
  | sequence (fields : List (Option String))
  /-- One of the alternatives. -/
  | choice (alternatives : List String)
deriving Repr, DecidableEq, Inhabited

/-- The kind of rule that a shape asks for. -/
def Shape.ruleKind : Shape → Peg.RuleKind
  | token => .atomic
  | sequence _ => .normal
  | choice _ => .silent

/-- The sign in front of the body of a rule. -/
def Shape.sign : Shape → String
  | token => "@"
  | sequence _ => ""
  | choice _ => "_"

/-- **The rule of a node.** -/
structure NodeRule where
  name : String
  shape : Shape
  body : Peg.Expr
  comment : Option String
deriving Repr, DecidableEq, Inhabited

/-- The text of a rule. -/
def NodeRule.render (r : NodeRule) : String :=
  r.name ++ " = " ++ r.shape.sign ++ "\x7b " ++ r.body.render ++ " \x7d"

/-- An element with its property, as comments show it. -/
def Element.caption (e : Element) : String :=
  match e.property with
  | some property => property ++ ":" ++ e.target
  | none => e.target

/-- The expression of a pattern. -/
def Pattern.expr : Pattern → Except PatternError Peg.Expr
  | .literal text => .ok (.text text)
  | .regex source => lowerPattern source

/-- The comment on a deduction. -/
def fieldsComment (elements : List Element) : String :=
  String.ofList (Text.trimEnd
    ("fields: " ++ " ".intercalate (elements.map Element.caption)).toList)

/-- The rule of a node. -/
def NodeRule.ofNode (name : String) (n : Node) : Except PatternError NodeRule :=
  match n.body with
  | .token pattern => do
    return { name, shape := .token, body := ← pattern.expr, comment := n.description }
  | .deduction elements => .ok {
      name
      shape := .sequence (elements.map Element.property)
      body := .sequence (elements.map fun e => .ref e.target)
      comment := some (fieldsComment elements) }
  | .union members => .ok {
      name
      shape := .choice members
      body := .firstOf (members.map .ref)
      comment := n.description }

/-! ## Text -/

/-- A line of a comment; a blank at its end stays only behind other text. -/
def commentLine (line : List Char) : List Char :=
  let s := '/' :: '/' :: ' ' :: line
  if [' ', '/', '/'].isPrefixOf s.reverse then s.dropLast else s

/-- A comment on lines of its own. -/
def commentLines (comment : String) : String :=
  String.join ((Text.lines comment.toList).map fun line => String.ofList (commentLine line) ++ "\n")

/-- The rule for blanks. -/
def blanksRule : String :=
  "WHITESPACE = _\x7b \" \" | \"\\t\" | \"\\r\" | \"\\n\" \x7d\n"

/-- The rule for a whole text. -/
def startRuleText (startRule start : String) : String :=
  startRule ++ " = \x7b SOI ~ " ++ start ++ " ~ EOI \x7d\n"

/-- A rule in a grammar text, with its comment in front. -/
def NodeRule.paragraph (r : NodeRule) (includeComments : Bool) : String :=
  "\n" ++ (if includeComments then (r.comment.map commentLines).getD "" else "") ++ r.render ++ "\n"

/-- The text of a grammar. -/
def grammarText (m : Model) (c : GrammarConfig) (rules : List NodeRule) : String :=
  header m ++ "\n" ++ blanksRule ++ "\n" ++ startRuleText c.startRule m.start ++
    String.join (rules.map fun r => r.paragraph c.includeComments)

/-! ## Generating -/

/-- Numbers of rules, and the rules that come back to themselves. -/
structure GrammarStats where
  totalRules : Nat
  tokenRules : Nat
  deductionRules : Nat
  unionRules : Nat
  leftRecursiveRules : List String
deriving Repr, DecidableEq

/-- **A generated grammar.** -/
structure Grammar where
  text : String
  startRule : String
  startNode : String
  rules : List NodeRule
  stats : GrammarStats
deriving Repr, DecidableEq

/-- Names of rules that a node cannot have. -/
def reservedRuleNames : List String :=
  ["WHITESPACE", "COMMENT", "SOI", "EOI", "ANY", "PUSH", "POP", "POP_ALL", "PEEK", "PEEK_ALL",
    "DROP", "ASCII", "ASCII_DIGIT", "ASCII_NONZERO_DIGIT", "ASCII_BIN_DIGIT", "ASCII_OCT_DIGIT",
    "ASCII_HEX_DIGIT", "ASCII_ALPHA_LOWER", "ASCII_ALPHA_UPPER", "ASCII_ALPHA",
    "ASCII_ALPHANUMERIC", "NEWLINE"]

/-- What can be wrong with the rules for a model. -/
inductive RuleFault where
  | invalidStartRule (name : String)
  | reservedName (node : String)
  | keyword (node : String)
  | pattern (node : String) (cause : PatternError)
deriving Repr, DecidableEq

/-- The report of a fault. -/
def RuleFault.message : RuleFault → String
  | invalidStartRule name => "invalid start rule name '" ++ name ++ "'"
  | reservedName node => "node name '" ++ node ++ "' collides with a reserved pest rule"
  | keyword node => "node name '" ++ node ++ "' is a Rust keyword and cannot name a pest rule"
  | pattern node cause => "token '" ++ node ++ "': " ++ cause.message

/-- What is wrong with the name of the start rule. -/
def startRuleFaults (startRule : String) : List RuleFault :=
  if !Code.isIdentifier startRule ∨ startRule ∈ reservedRuleNames then
    [.invalidStartRule startRule]
  else []

/-- What is wrong with the name of a node's rule. -/
def ruleNameFaults (startRule node : String) : List RuleFault :=
  if node ∈ reservedRuleNames ∨ node = startRule then [.reservedName node]
  else if !Code.isIdentifier node then [.keyword node]
  else []

/-- What is wrong with a node's pattern. -/
def patternFaults (e : String × Node) : List RuleFault :=
  match NodeRule.ofNode e.1 e.2 with
  | .ok _ => []
  | .error cause => [.pattern e.1 cause]

/-- Everything that is wrong with the rules for a model. -/
def Model.ruleFaults (m : Model) (startRule : String) : List RuleFault :=
  startRuleFaults startRule ++ m.names.flatMap (ruleNameFaults startRule) ++
    m.nodes.entries.flatMap patternFaults

/-- The rules of the nodes that have one. -/
def Model.rules (m : Model) : List NodeRule :=
  m.nodes.entries.filterMap fun e => (NodeRule.ofNode e.1 e.2).toOption

/-- The numbers of rules for a model. -/
def Model.grammarStats (m : Model) : GrammarStats where
  totalRules := m.nodes.size
  tokenRules := (m.namesOf .token).length
  deductionRules := (m.namesOf .deduction).length
  unionRules := (m.namesOf .union).length
  leftRecursiveRules := m.leftRecursive

/-- The warning about rules that come back to themselves. -/
def leftRecursionWarnings (names : List String) : List String :=
  if names = [] then []
  else ["left-recursive rules will not parse with a PEG engine: " ++ ", ".intercalate names]

/-- **The grammar of a model.** -/
def generateGrammar (m : Model) (c : GrammarConfig) : Generation Grammar :=
  if m.faults ≠ [] then .refused m.faultMessages []
  else match m.ruleFaults c.startRule with
    | [] =>
      .done {
        text := grammarText m c m.rules
        startRule := c.startRule
        startNode := m.start
        rules := m.rules
        stats := m.grammarStats } (leftRecursionWarnings m.leftRecursive)
    | faults => .refused (faults.map RuleFault.message) []

end GrammarKit
