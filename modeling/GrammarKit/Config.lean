import GrammarKit.Json.Record
import GrammarKit.Json.Reader

/-!
# Configuration

What can be chosen about the generated files. A configuration is written as a structured value;
every missing field takes its default.

* `Naming`, `SchemaConfig`, `StringifierConfig`, `GrammarConfig`: the sections.
* `Config`: all sections.
* `Config.ofJson?`, `Config.parse?`, `Config.toJson`: reading and writing.
-/

namespace GrammarKit

/-- How the names of generated code come about. -/
structure Naming where
  /-- Behind the type name of a token. -/
  tokenSuffix : String := "Token"
  /-- Behind the type name of a deduction. -/
  nodeSuffix : String := "Node"
  /-- In front of a function name. -/
  functionPrefix : String := "stringify_"
  /-- Paths of types to use in place of generated ones, by node. -/
  typeMapping : Table String := ∅
deriving DecidableEq, Inhabited

/-- Choices for the generated types. -/
structure SchemaConfig where
  outputDir : String := ""
  separateFiles : Bool := true
  includeDocumentation : Bool := true
deriving DecidableEq, Inhabited, Repr

/-- One step of indentation. -/
inductive IndentStyle where
  | spaces (n : Nat)
  | tabs
deriving DecidableEq, Inhabited, Repr

/-- The largest number of spaces that has a text. -/
def IndentStyle.maxSpaces : Nat := 0x7FFFFFFFFFFFFFFF

/-- The text of one step of indentation, if there is one. -/
def IndentStyle.unit? : IndentStyle → Option String
  | spaces n => if n ≤ maxSpaces then some ("".pushn ' ' n) else none
  | tabs => some "\t"

/-- Choices for the generated functions that write values. -/
structure StringifierConfig where
  indentStyle : IndentStyle := .spaces 2
  includeWhitespace : Bool := true
  includeFormatting : Bool := true
  schemaPath : String := "super::schema"
  separateFiles : Bool := true
deriving DecidableEq, Inhabited, Repr

/-- Choices for the generated grammar. -/
structure GrammarConfig where
  startRule : String := "start"
  includeComments : Bool := true
deriving DecidableEq, Inhabited, Repr

/-- **A configuration.** -/
structure Config where
  naming : Naming := {}
  schema : SchemaConfig := {}
  stringifier : StringifierConfig := {}
  grammar : GrammarConfig := {}
deriving DecidableEq, Inhabited

open Json

/-! ## Reading -/

/-- Reads the section on names. -/
def Naming.ofJson? (j : Json) : Option Naming := do
  let fields ← j.record? ["tokenSuffix", "nodeSuffix", "functionPrefix", "typeMapping"]
  let default : Naming := {}
  return {
    tokenSuffix := ← fieldOr fields "tokenSuffix" default.tokenSuffix text?
    nodeSuffix := ← fieldOr fields "nodeSuffix" default.nodeSuffix text?
    functionPrefix := ← fieldOr fields "functionPrefix" default.functionPrefix text?
    typeMapping := ← fieldOr fields "typeMapping" default.typeMapping (table? text?) }

/-- Reads the section on types. -/
def SchemaConfig.ofJson? (j : Json) : Option SchemaConfig := do
  let fields ← j.record? ["outputDir", "separateFiles", "includeDocumentation"]
  let default : SchemaConfig := {}
  return {
    outputDir := ← fieldOr fields "outputDir" default.outputDir text?
    separateFiles := ← fieldOr fields "separateFiles" default.separateFiles flag?
    includeDocumentation :=
      ← fieldOr fields "includeDocumentation" default.includeDocumentation flag? }

/-- Reads a step of indentation: `"tabs"`, or an object with one member. -/
def IndentStyle.ofJson? : Json → Option IndentStyle
  | .string "tabs" => some .tabs
  | .object [("tabs", .null)] => some .tabs
  | .object [("spaces", .number (.whole n))] =>
    if 0 ≤ n ∧ n ≤ 0xFFFFFFFFFFFFFFFF then some (.spaces n.toNat) else none
  | _ => none

/-- Reads the section on functions. -/
def StringifierConfig.ofJson? (j : Json) : Option StringifierConfig := do
  let fields ← j.record?
    ["indentStyle", "includeWhitespace", "includeFormatting", "schemaPath", "separateFiles"]
  let default : StringifierConfig := {}
  return {
    indentStyle := ← fieldOr fields "indentStyle" default.indentStyle IndentStyle.ofJson?
    includeWhitespace := ← fieldOr fields "includeWhitespace" default.includeWhitespace flag?
    includeFormatting := ← fieldOr fields "includeFormatting" default.includeFormatting flag?
    schemaPath := ← fieldOr fields "schemaPath" default.schemaPath text?
    separateFiles := ← fieldOr fields "separateFiles" default.separateFiles flag? }

/-- Reads the section on the grammar. -/
def GrammarConfig.ofJson? (j : Json) : Option GrammarConfig := do
  let fields ← j.record? ["startRule", "includeComments"]
  let default : GrammarConfig := {}
  return {
    startRule := ← fieldOr fields "startRule" default.startRule text?
    includeComments := ← fieldOr fields "includeComments" default.includeComments flag? }

namespace Config

/-- Reads a configuration. -/
def ofJson? (j : Json) : Option Config := do
  let fields ← j.record? ["naming", "schema", "stringifier", "grammar"]
  return {
    naming := ← fieldOr fields "naming" {} Naming.ofJson?
    schema := ← fieldOr fields "schema" {} SchemaConfig.ofJson?
    stringifier := ← fieldOr fields "stringifier" {} StringifierConfig.ofJson?
    grammar := ← fieldOr fields "grammar" {} GrammarConfig.ofJson? }

/-- The sections and their fields. -/
def outline : Json.Outline :=
  .record [
    ("naming", .record [("tokenSuffix", .whole), ("nodeSuffix", .whole),
      ("functionPrefix", .whole), ("typeMapping", .whole)]),
    ("schema", .record [("outputDir", .whole), ("separateFiles", .whole),
      ("includeDocumentation", .whole)]),
    ("stringifier", .record [("indentStyle", .whole), ("includeWhitespace", .whole),
      ("includeFormatting", .whole), ("schemaPath", .whole), ("separateFiles", .whole)]),
    ("grammar", .record [("startRule", .whole), ("includeComments", .whole)])]

/-- Reads the text of a configuration. -/
def parse? (text : String) : Option Config := (Json.parseOutline? outline text).bind ofJson?

/-! ## Writing -/

/-- A step of indentation as a value. -/
def indentToJson : IndentStyle → Json
  | .spaces n => .object [("spaces", .ofNat n)]
  | .tabs => .string "tabs"

/-- A configuration as a value, with every field given. -/
def toJson (c : Config) : Json :=
  .object [
    ("naming", .object [
      ("tokenSuffix", .string c.naming.tokenSuffix),
      ("nodeSuffix", .string c.naming.nodeSuffix),
      ("functionPrefix", .string c.naming.functionPrefix),
      ("typeMapping", .object (c.naming.typeMapping.entries.map fun e => (e.1, .string e.2)))]),
    ("schema", .object [
      ("outputDir", .string c.schema.outputDir),
      ("separateFiles", .bool c.schema.separateFiles),
      ("includeDocumentation", .bool c.schema.includeDocumentation)]),
    ("stringifier", .object [
      ("indentStyle", indentToJson c.stringifier.indentStyle),
      ("includeWhitespace", .bool c.stringifier.includeWhitespace),
      ("includeFormatting", .bool c.stringifier.includeFormatting),
      ("schemaPath", .string c.stringifier.schemaPath),
      ("separateFiles", .bool c.stringifier.separateFiles)]),
    ("grammar", .object [
      ("startRule", .string c.grammar.startRule),
      ("includeComments", .bool c.grammar.includeComments)])]

end Config

end GrammarKit
