import GrammarKit.Code.File
import GrammarKit.Naming.Resolution

/-!
# Generated functions that write values

A function per node: a token gives its value, a deduction the texts of its elements with a
separator between them, and a union asks the function of the member at hand. A node with a type
from outside is written by that type itself.

* `Arm`: a variant and the function that writes it.
* `Part`, `partOf?`: what an element of a deduction writes.
* `nodeFunction`: the function for a node.
* `optionItems`, `helperItems`: the declarations that all functions share.
-/

namespace GrammarKit

open Code

/-- A variant of an enumeration, and the function that writes it. -/
structure Arm where
  variant : String
  function : String
deriving Repr, DecidableEq

/-- The arm for a node. -/
def armOf (names : Names) (node : String) : Arm := ⟨names.variantOf node, names.functionOf node⟩

/-- An arm of a function on the enumeration `type`. -/
def Arm.tokens (type : List Token) (a : Arm) : List Token :=
  type ++ words "::" ++ nameTokens a.variant ++ paren (words "ref inner") ++ words "=>" ++
    nameTokens a.function ++ paren (words "inner , options")

/-- **What an element of a deduction writes.** -/
inductive Part where
  /-- What a function makes of a field. -/
  | field (function name : String)
  /-- A fixed text. -/
  | text (s : String)
deriving Repr, DecidableEq

/-- The expression of a part. -/
def Part.tokens : Part → List Token
  | field function name =>
    nameTokens function ++ paren (words "& node ." ++ nameTokens name ++ words ", options")
  | text s => words "String :: from" ++ paren [textLiteral s]

/-- What an element writes; one without a property writes the fixed text of its token, if there is
any. -/
def partOf? (m : Model) (names : Names) (e : Element) : Option Part :=
  match e.property with
  | some property => some (.field (names.functionOf e.target) (names.fieldOf property))
  | none =>
    match m.literalOf? e.target with
    | some text => if text = "" then none else some (.text text)
    | none => none

/-- A warning about an element that writes nothing though it may stand for a text. -/
def silentElement? (m : Model) (owner : String) (e : Element) : Option String :=
  if e.property.isNone ∧ (m.literalOf? e.target).isNone then
    some ("element '" ++ e.target ++ "' in '" ++ owner ++
      "' has no property and no fixed text; it is not stringified")
  else none

/-! ## Functions for nodes -/

/-- A function that writes a node, given its parameters and its body. -/
def writeFunction (function : String) (node : String) (type : List Token) (options : String)
    (body : List Token) : List Token :=
  words "pub fn" ++ nameTokens function ++
    paren (nameTokens node ++ words ": &" ++ type ++ words "," ++ nameTokens options ++
      words ": & StringifyOptions") ++
    words "-> String" ++ brace body

/-- The body of the function for a deduction. -/
def joinParts (parts : List Part) : List Token :=
  words "let parts : Vec < String > = vec !" ++ bracket (commaSeparated (parts.map Part.tokens)) ++
    words "; parts . join" ++ paren (words "separator" ++ paren (words "options"))

/-- The function for a node. -/
def nodeFunction (m : Model) (names : Names) (e : NamedNode) : List Token :=
  let function := names.functionOf e.1
  let type := typeTokens (names.typeOf e.1)
  if names.isMapped e.1 then
    writeFunction function "node" type "_options" (words "node . to_string" ++ paren [])
  else match e.2.body with
    | .token _ =>
      writeFunction function "node" type "_options" (words "node . value . clone" ++ paren [])
    | .deduction elements =>
      let parameter := if elements.any (·.property.isSome) then "node" else "_node"
      writeFunction function parameter type "options"
        (joinParts (elements.filterMap (partOf? m names)))
    | .union members =>
      writeFunction function "node" type "options" (words "match * node" ++
        brace (commaEnded (members.map fun member => (armOf names member).tokens type)))

/-- The warnings about the elements of a node. -/
def nodeWarnings (m : Model) (names : Names) (e : NamedNode) : List String :=
  if names.isMapped e.1 then []
  else match e.2.body with
    | .deduction elements => elements.filterMap (silentElement? m e.1)
    | _ => []

/-! ## Shared declarations -/

/-- A truth value. -/
def flag (b : Bool) : List Token := words (if b then "true" else "false")

/-- The type of the choices about blanks. -/
def formattingItem : List Token :=
  derive "Debug , Clone , PartialEq , Eq" ++ words "pub struct FormattingOptions" ++
    brace (words "pub newline_after : bool , pub space_around : bool , pub compact : bool ,") ++
    words "impl Default for FormattingOptions" ++ brace (words "fn default" ++ paren [] ++
      words "-> Self" ++ brace (words "Self" ++
        brace (words "newline_after : false , space_around : true , compact : false ,")))

/-- The type of all choices, with the defaults of a configuration. -/
def optionsItem (unit : String) (c : StringifierConfig) : List Token :=
  derive "Debug , Clone , PartialEq , Eq" ++ words "pub struct StringifyOptions" ++
    brace (words "pub indent : usize , pub indent_string : String ," ++
      words "pub include_whitespace : bool , pub format : bool ," ++
      words "pub formatting : FormattingOptions ,") ++
    words "impl Default for StringifyOptions" ++ brace (words "fn default" ++ paren [] ++
      words "-> Self" ++ brace (words "Self" ++
        brace (words "indent : 0 , indent_string : String :: from" ++ paren [textLiteral unit] ++
          words ", include_whitespace :" ++ flag c.includeWhitespace ++
          words ", format :" ++ flag c.includeFormatting ++
          words ", formatting : FormattingOptions :: default" ++ paren [] ++ words ",")))

/-- The name for the type of the functions. -/
def functionAlias : List Token :=
  words "pub type StringifyFn = fn" ++ paren (words "& Root , & StringifyOptions") ++
    words "-> String ;"

/-- The types that all functions share. -/
def optionItems (unit : String) (c : StringifierConfig) : List (List Token) :=
  [formattingItem, optionsItem unit c, functionAlias]

/-- The functions for indentation and separator. -/
def blanksItem : List Token :=
  words "pub fn get_indentation" ++ paren (words "options : & StringifyOptions") ++
    words "-> String" ++
    brace (words "options . indent_string . repeat" ++ paren (words "options . indent")) ++
  words "pub fn separator" ++ paren (words "options : & StringifyOptions") ++
    words "-> & 'static str" ++ brace (
      words "if options . format && options . include_whitespace" ++
      words "&& ! options . formatting . compact" ++
      brace [textLiteral " "] ++ words "else" ++ brace [textLiteral ""])

/-- The functions for whole values. -/
def entryItem (start : String) : List Token :=
  words "pub fn stringify" ++ paren (words "root : & Root") ++ words "-> String" ++
    brace (words "stringify_with" ++
      paren (words "root , & StringifyOptions :: default" ++ paren [])) ++
  words "pub fn stringify_with" ++ paren (words "root : & Root , options : & StringifyOptions") ++
    words "-> String" ++ brace (nameTokens start ++ paren (words "root , options"))

/-- The arms for all values: tokens, then deductions. -/
def valueArms (m : Model) (names : Names) : List Arm :=
  (m.namesOf .token ++ m.namesOf .deduction).map (armOf names)

/-- The function for a value of any type. -/
def dispatcherItem (arms : List Arm) : List Token :=
  words "pub fn stringify_node" ++
    paren (words "node : & AnyNode , options : & StringifyOptions") ++
    words "-> String" ++ brace (words "match * node" ++
      brace (commaEnded (arms.map (Arm.tokens (words "AnyNode")))))

/-- The functions that do not belong to a node. -/
def helperItems (m : Model) (names : Names) : List (List Token) :=
  [blanksItem, entryItem (names.functionOf m.start), dispatcherItem (valueArms m names)]

end GrammarKit
