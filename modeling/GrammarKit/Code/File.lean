import GrammarKit.Code.TypePath
import GrammarKit.Generation
import GrammarKit.Text.Lines

/-!
# Generated files

* `Files`: generated files by their paths, in order.
* `codeFile`: the text of a file from its items.
* `filePath`: the path of a file in a directory.
* `attr`, `derive`, `docLines`, `importAll`: items and parts of items that many files share.
-/

namespace GrammarKit.Code

/-- Generated files by their paths. -/
abbrev Files := Table String

/-- The text of a file: the header, then the items that are not empty, each in a paragraph. -/
def codeFile (m : Model) (items : List (List Token)) : String :=
  header m ++ String.join ((items.filter (!·.isEmpty)).map fun item =>
    "\n" ++ Token.renderAll item ++ "\n")

/-- The path of a file in a directory; slashes at the end of the directory do not count. -/
def filePath (dir file : String) : String :=
  let dir := String.ofList ((dir.toList.reverse.dropWhile (· = '/')).reverse)
  if dir = "" then file else dir ++ "/" ++ file

/-! ## Parts of items -/

/-- An identifier. -/
def nameTokens (s : String) : List Token := [.unit s]

/-- An attribute. -/
def attr (body : List Token) : List Token := .unit "#" :: bracket body

/-- The attribute that derives traits. -/
def derive (traits : String) : List Token := attr (words "derive" ++ paren (words traits))

/-- The traits of every generated type of values. -/
def deriveValue : List Token := derive "Debug , Clone , PartialEq , Eq , Hash"

/-- A documentation as attributes, one per line. -/
def docLines (doc : Option String) : List Token :=
  match doc with
  | none => []
  | some text => (Text.lines text.toList).flatMap fun line =>
      attr (words "doc =" ++ [textLiteral (" " ++ String.ofList line)])

/-- The attribute that allows imports without use. -/
def allowUnusedImports : List Token := attr (words "allow" ++ paren (words "unused_imports"))

/-- An item that imports all of a module. -/
def importAll (module : List Token) : List Token := words "use" ++ module ++ words ":: * ;"

end GrammarKit.Code
