import GrammarKit.Grammar.Generator
import GrammarKit.Json
import GrammarKit.Peg.Machine
import GrammarKit.Text.Position

/-!
# Values from trees

A tree becomes a value by the shapes of its rules: a token keeps its text, a sequence keeps the
parts that fill a property, a choice stands for its first part.

* `ParseError`: a place in a text, and what is wrong there.
* `valueOf`: the value of a tree.
* `valueOfParse`: the value of what the start rule has matched.
-/

namespace GrammarKit

open Text Peg

/-- What is wrong with a text, and where. -/
structure ParseError where
  position : Position
  detail : String
deriving Repr, DecidableEq

/-- The report of an error. -/
def ParseError.message (e : ParseError) : String :=
  "parse error at " ++ toString e.position.line ++ ":" ++ toString e.position.column ++ ": " ++
    e.detail

/-- An error at the place in `input` at which `left` characters are left. -/
def ParseError.before (input : List Char) (left : Nat) (detail : String) : ParseError :=
  ⟨.after (input.take (input.length - left)), detail⟩

/-- An error at the start of a text. -/
def ParseError.atStart (detail : String) : ParseError := ⟨⟨0, 1, 1⟩, detail⟩

mutual

/-- The value of a tree. -/
def valueOf (shapes : Table Shape) (input : List Char) : Tree → Except ParseError Json
  | .node name left text parts =>
    match shapes.get? name with
    | some .token => .ok (.object [("type", .string name), ("value", .string text)])
    | some (.sequence fields) =>
      if parts.length = fields.length then do
        return .object (← fieldValues shapes input [("type", .string name)] fields parts)
      else .error (.before input left
        ("rule '" ++ name ++ "' produced " ++ toString parts.length ++ " children, expected " ++
          toString fields.length))
    | some (.choice _) =>
      match parts with
      | part :: _ => valueOf shapes input part
      | [] => .error (.before input left ("rule '" ++ name ++ "' matched nothing"))
    | none => .error (.before input left ("unknown rule '" ++ name ++ "'"))

/-- The members of a value with those added that the parts of a sequence fill. -/
def fieldValues (shapes : Table Shape) (input : List Char) (members : List (String × Json)) :
    List (Option String) → List Tree → Except ParseError (List (String × Json))
  | _, [] => .ok members
  | [], _ => .ok members
  | none :: fields, _ :: parts => fieldValues shapes input members fields parts
  | some property :: fields, part :: parts => do
    let value ← valueOf shapes input part
    fieldValues shapes input (Entries.put property value members) fields parts

end

/-- The value of what the start rule has matched: that of its first part other than the end. -/
def valueOfParse (shapes : Table Shape) (input : List Char) (trees : List Tree) :
    Except ParseError Json :=
  match trees with
  | [] => .error (.atStart "empty parse tree")
  | start :: _ =>
    match start.parts.find? fun part => part.name ≠ "EOI" with
    | some root => valueOf shapes input root
    | none => .error (.atStart "start rule produced no node")

end GrammarKit
