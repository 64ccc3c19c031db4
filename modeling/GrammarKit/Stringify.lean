import GrammarKit.Config
import GrammarKit.Json
import GrammarKit.Model.Reachability

/-!
# Writing values

A value of a model is written by the elements of its node: the texts of its tokens with the
chosen separator between them.

* `StringifyOptions`: choices about blanks.
* `StringifyError`: what can be wrong with a value.
* `Model.stringify`: the text of a value.
-/

namespace GrammarKit

/-- Choices for writing values. -/
structure StringifyOptions where
  indent : Nat := 0
  indentString : String := "  "
  includeWhitespace : Bool := true
  format : Bool := true
  newlineAfter : Bool := false
  spaceAround : Bool := true
  compact : Bool := false
deriving Repr, DecidableEq, Inhabited

namespace StringifyOptions

/-- The choices that a configuration asks for. -/
def ofConfig? (c : StringifierConfig) : Option StringifyOptions :=
  c.indentStyle.unit?.map fun unit => {
    indentString := unit
    includeWhitespace := c.includeWhitespace
    format := c.includeFormatting }

/-- What stands between the elements of a deduction. -/
def separator (o : StringifyOptions) : String :=
  if o.format && o.includeWhitespace && !o.compact then " " else ""

/-- The indentation, unless its text is too long. -/
def indentation? (o : StringifyOptions) : Option String :=
  if o.indentString.utf8ByteSize * o.indent ≤ IndentStyle.maxSpaces then
    some (String.join (List.replicate o.indent o.indentString))
  else none

end StringifyOptions

/-- What can be wrong with a value. -/
inductive StringifyError where
  | unknownNodeType (name : String)
  | missingType
  | missingField (node property : String)
  | typeMismatch (node property found expected : String)
  | missingValue (token : String)
deriving Repr, DecidableEq

/-- The report of an error. -/
def StringifyError.message : StringifyError → String
  | unknownNodeType name => "unknown node type '" ++ name ++ "'"
  | missingType => "value has no 'type' discriminant"
  | missingField node property => "node '" ++ node ++ "' is missing field '" ++ property ++ "'"
  | typeMismatch node property found expected =>
    "field '" ++ property ++ "' of '" ++ node ++ "' holds a '" ++ found ++ "', expected " ++
      expected
  | missingValue token => "token '" ++ token ++ "' has no string 'value'"

namespace Model

/-- Checks that a value may stand in the place of `expected`, under a property of `node`. -/
def checkType (m : Model) (node property expected : String) (field : Json) :
    Except StringifyError Unit :=
  match field.textMember? "type" with
  | none => .error .missingType
  | some found =>
    if found ∈ m.concreteTypes expected then .ok ()
    else if m.has found then .error (.typeMismatch node property found expected)
    else .error (.unknownNodeType found)

/-- What an element without a property writes: the fixed text of its token, if it is not empty. -/
def fixedText (m : Model) (target : String) : List String :=
  match m.literalOf? target with
  | some text => if text = "" then [] else [text]
  | none => []

/-- **The text of a value**, with `separator` between the elements of a deduction. -/
def stringify (m : Model) (separator : String) (value : Json) : Except StringifyError String :=
  match value.textMember? "type" with
  | none => .error .missingType
  | some type =>
    match (m.node? type).map Node.body with
    | some (.token _) =>
      match value.textMember? "value" with
      | some text => .ok text
      | none => .error (.missingValue type)
    | some (.deduction elements) => do
      let parts ← elements.mapM fun e =>
        match e.property with
        | none => .ok (m.fixedText e.target)
        | some property =>
          match _ : value.member? property with
          | none => .error (.missingField type property)
          | some field => do
            m.checkType type property e.target field
            return [← m.stringify separator field]
      return separator.intercalate parts.flatten
    | _ => .error (.unknownNodeType type)
termination_by sizeOf value
decreasing_by
  rename_i h
  exact Json.sizeOf_lt_of_member? h

end Model

end GrammarKit
