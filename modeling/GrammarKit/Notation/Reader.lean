import GrammarKit.Notation.Lexeme

/-!
# Reading models

The model notation: a header with the name, the version and the start node, then the nodes.

    /// Arithmetic over numbers.
    grammar Sums version "1.0.0" start Sum;
    token Number = /\d+/;
    token Plus = "+";
    deduction Sum = left:Number Plus right:Number;

* `header`, `definition`, `modelText`: the parts of the notation.
* `Model.parse`: the model that a text writes.
-/

namespace GrammarKit.Notation

open Text

/-- The semicolon that ends the header and every definition. -/
def semicolon : Reader Unit := Reader.hinting (Reader.orCommit (lexeme (sign ';'))) [.expected ";"]

/-! ## The header -/

/-- Name, version and start node of a model. -/
structure Header where
  name : String
  version : Option String
  start : String
deriving Repr

/-- The version behind its key word. -/
def versionClause : Reader String := fun s => do
  let (_, s) ← lexeme (keyword "version") s
  Reader.hinting (Reader.orCommit (lexeme quoted)) [.part "version"] s

/-- The start node behind its key word. -/
def startClause : Reader String := fun s => do
  let (_, s) ← lexeme (keyword "start") s
  lexeme word s

/-- The header of a model. -/
def header : Reader Header := fun s => do
  let (_, s) ← Reader.hinting (keyword "grammar") [.expected "grammar"] s
  let (name, s) ← Reader.hinting (Reader.orCommit (lexeme word)) [.part "grammar name"] s
  let (version, s) ← Reader.optional versionClause s
  let (start, s) ← Reader.hinting (Reader.orCommit startClause) [.expected "start"] s
  let (_, s) ← semicolon s
  return ({ name, version, start }, s)

/-! ## Definitions -/

/-- The name of a definition and the equals sign behind it. -/
def definitionName : Reader String := Reader.orCommit fun s => do
  let (name, s) ← Reader.hinting (lexeme word) [.part "node name"] s
  let (_, s) ← Reader.hinting (lexeme (sign '=')) [.expected "="] s
  return (name, s)

/-- A text between quotes or a regular expression between slashes. -/
def pattern : Reader Pattern
  | s@('"' :: _) => (quoted s).map fun (text, s) => (.literal text, s)
  | s => (slashed s).map fun (source, s) => (.regex source, s)

/-- A node behind a member sign, or nothing; the sign is given back if no name follows. -/
def nextMember : Reader String := fun s => do
  let (_, s) ← lexeme (sign '|') s
  lexeme word s

/-- The members of a union. -/
def members : Reader (List String) := fun s => do
  let (first, s) ← Reader.hinting (Reader.orCommit (lexeme word)) [.part "union members"] s
  let (rest, s) ← Reader.many nextMember s.length s
  return (first :: rest, s)

/-- The node of an element that fills a property. -/
def elementNode : Reader String := fun s => do
  let (_, s) ← lexeme (sign ':') s
  Reader.hinting (Reader.orCommit (lexeme word)) [.part "element node"] s

/-- An element: a node, or a property and its node. -/
def element : Reader Element := fun s => do
  let (first, s) ← lexeme word s
  let (target, s) ← Reader.optional elementNode s
  return (match target with
    | some target => { target, property := some first }
    | none => { target := first }, s)

/-- The definition of a token. -/
def tokenDefinition : Reader (String × Body) := fun s => do
  let (_, s) ← keyword "token" s
  let (name, s) ← definitionName s
  let (pattern, s) ← Reader.hinting (Reader.orCommit (lexeme pattern))
    [.part "token pattern", .described "a \"literal\" or a /regex/"] s
  let (_, s) ← semicolon s
  return ((name, .token pattern), s)

/-- The definition of a union. -/
def unionDefinition : Reader (String × Body) := fun s => do
  let (_, s) ← keyword "union" s
  let (name, s) ← definitionName s
  let (members, s) ← members s
  let (_, s) ← semicolon s
  return ((name, .union members), s)

/-- The definition of a deduction. -/
def deductionDefinition : Reader (String × Body) := fun s => do
  let (_, s) ← keyword "deduction" s
  let (name, s) ← definitionName s
  let (elements, s) ← Reader.many element s.length s
  let (_, s) ← semicolon s
  return ((name, .deduction elements), s)

/-- A definition of one of the three kinds, told apart by their key words. -/
def definitionBody : Reader (String × Body) := fun s =>
  match tokenDefinition s with
  | .error f =>
    if f.committed then .error f
    else match unionDefinition s with
      | .error f => if f.committed then .error f else deductionDefinition s
      | r => r
  | r => r

/-- A node: its description and its definition. -/
def definition : Reader (String × Node) := fun s => do
  let (description, s) := description (trivia s)
  let ((name, body), s) ← Reader.hinting definitionBody
    [.part "node definition", .expected "token", .expected "union", .expected "deduction"]
    (trivia s)
  return ((name, { description, body }), s)

/-- A header, definitions, and nothing but blanks and comments behind them. The description in
front of the header is passed over. -/
def modelText (s : List Char) : Except Failure (Header × List (String × Node)) := do
  let (head, s) ← header (trivia (description (trivia s)).2)
  let (definitions, s) ← Reader.many definition s.length s
  let rest := trivia s
  if rest = [] then return (head, definitions) else .error { rest }

/-- The first name that an earlier entry has as well. -/
def firstRepeat? {α : Type} : List String → List (String × α) → Option String
  | _, [] => none
  | seen, (name, _) :: entries =>
    if name ∈ seen then some name else firstRepeat? (name :: seen) entries

end GrammarKit.Notation

namespace GrammarKit

open Notation

/-- **The model that a text writes.** It need not be well-formed. -/
def Model.parse (source : String) : Except NotationError Model :=
  let s := source.toList
  match modelText s with
  | .error f => .error (.malformed (.before s f.rest) f.detail)
  | .ok (head, definitions) =>
    match firstRepeat? [] definitions with
    | some name => .error (.duplicateNode name)
    | none => .ok {
        name := head.name
        version := head.version.getD Model.defaultVersion
        start := head.start
        nodes := .ofList definitions }

/-- The well-formed model that a text writes, or the reports of what is wrong. -/
def Model.load (source : String) : Except (List String) Model :=
  match Model.parse source with
  | .error e => .error [e.message]
  | .ok m => if m.faults = [] then .ok m else .error m.faultMessages

end GrammarKit
