import GrammarKit.Regex.Intervals
import GrammarKit.Regex.Syntax
import GrammarKit.Text.Edition
import GrammarKit.Text.Script
import GrammarKit.Text.Segmentation

/-!
# Classes of characters by name

* `AsciiClass.bytes`, `EscapeClass.bytes`, `EscapeClass.chars`: the named classes.
* `categoriesNamed?`: general categories by name.
* `propertyChars`: the characters that a query asks for.
-/

namespace GrammarKit.Regex

open Text

/-! ## Named classes -/

/-- The ASCII characters of a class. -/
def AsciiClass.bytes : AsciiClass → Intervals
  | .alnum => [(0x30, 0x39), (0x41, 0x5A), (0x61, 0x7A)]
  | .alpha => [(0x41, 0x5A), (0x61, 0x7A)]
  | .ascii => [(0x00, 0x7F)]
  | .blank => [(0x09, 0x09), (0x20, 0x20)]
  | .cntrl => [(0x00, 0x1F), (0x7F, 0x7F)]
  | .digit => [(0x30, 0x39)]
  | .graph => [(0x21, 0x7E)]
  | .lower => [(0x61, 0x7A)]
  | .print => [(0x20, 0x7E)]
  | .punct => [(0x21, 0x2F), (0x3A, 0x40), (0x5B, 0x60), (0x7B, 0x7E)]
  | .space => [(0x09, 0x0D), (0x20, 0x20)]
  | .upper => [(0x41, 0x5A)]
  | .word => [(0x30, 0x39), (0x41, 0x5A), (0x5F, 0x5F), (0x61, 0x7A)]
  | .xdigit => [(0x30, 0x39), (0x41, 0x46), (0x61, 0x66)]

/-- The ASCII characters of an escape's class. -/
def EscapeClass.bytes : EscapeClass → Intervals
  | .digit => AsciiClass.bytes .digit
  | .space => AsciiClass.bytes .space
  | .word => AsciiClass.bytes .word

/-- The intervals of a set of characters. -/
def Intervals.ofChars : CharSet → Intervals
  | .table blocks => .ofBlocks blocks
  | .either left right => .union (ofChars left) (ofChars right)
  | .except left right => .diff (ofChars left) (ofChars right)

/-- The characters of any script of an escape's class. -/
def EscapeClass.chars : EscapeClass → Intervals
  | .digit => .ofChars (.ofCategories [.decimalNumber])
  | .space => .ofBlocks whiteSpace
  | .word =>
    .union (.ofChars alphabetic) (.union (.ofChars (.ofCategories (Category.marks ++
      [.decimalNumber, .connectorPunctuation]))) [(0x200C, 0x200D)])

/-! ## Properties -/

/-- Names are compared in lower case, without separators and without `is` in front. -/
def normalizeName (name : String) : String :=
  let s := name.toList
  let body := if (s.take 2).map Char.toLower = ['i', 's'] then s.drop 2 else s
  let plain := (body.filter fun c => c.toNat < 0x80 && c != ' ' && c != '_' && c != '-').map
    Char.toLower
  if body.length < s.length ∧ plain = ['c'] then "isc" else String.ofList plain

/-- The general categories of a normalized name. -/
def categoriesNamed? (name : String) : Option (List Category) :=
  match name with
  | "l" | "letter" => some Category.letters
  | "lc" | "casedletter" => some [.upperLetter, .lowerLetter, .titleLetter]
  | "lu" | "uppercaseletter" => some [.upperLetter]
  | "ll" | "lowercaseletter" => some [.lowerLetter]
  | "lt" | "titlecaseletter" => some [.titleLetter]
  | "lm" | "modifierletter" => some [.modifierLetter]
  | "lo" | "otherletter" => some [.otherLetter]
  | "m" | "mark" | "combiningmark" => some Category.marks
  | "mn" | "nonspacingmark" => some [.nonspacingMark]
  | "mc" | "spacingmark" => some [.spacingMark]
  | "me" | "enclosingmark" => some [.enclosingMark]
  | "n" | "number" => some Category.numbers
  | "nd" | "decimalnumber" | "digit" => some [.decimalNumber]
  | "nl" | "letternumber" => some [.letterNumber]
  | "no" | "othernumber" => some [.otherNumber]
  | "p" | "punctuation" | "punct" => some Category.punctuation
  | "pc" | "connectorpunctuation" => some [.connectorPunctuation]
  | "pd" | "dashpunctuation" => some [.dashPunctuation]
  | "ps" | "openpunctuation" => some [.openPunctuation]
  | "pe" | "closepunctuation" => some [.closePunctuation]
  | "pi" | "initialpunctuation" => some [.initialPunctuation]
  | "pf" | "finalpunctuation" => some [.finalPunctuation]
  | "po" | "otherpunctuation" => some [.otherPunctuation]
  | "s" | "symbol" => some Category.symbols
  | "sm" | "mathsymbol" => some [.mathSymbol]
  | "sc" | "currencysymbol" => some [.currencySymbol]
  | "sk" | "modifiersymbol" => some [.modifierSymbol]
  | "so" | "othersymbol" => some [.otherSymbol]
  | "z" | "separator" => some Category.separators
  | "zs" | "spaceseparator" => some [.spaceSeparator]
  | "zl" | "lineseparator" => some [.lineSeparator]
  | "zp" | "paragraphseparator" => some [.paragraphSeparator]
  | "cc" | "control" | "cntrl" => some [.control]
  | "cf" | "format" => some [.format]
  | "co" | "privateuse" => some [.privateUse]
  | "cn" | "unassigned" => some [.unassigned]
  | "c" | "other" => some [.control, .format, .privateUse, .unassigned]
  | _ => none

/-- The characters of a general category, or of one of the three classes beyond them. -/
def categoryChars? (name : String) : Option CharSet :=
  match name with
  | "any" => some .all
  | "assigned" => some .assigned
  | "ascii" => some (.table [⟨0, 0x7F, 1⟩])
  | _ => (categoriesNamed? name).map .ofCategories

/-- The characters with a property that holds or does not hold. -/
def binaryChars? (name : String) : Option CharSet :=
  (properties.find? fun p =>
    (p.name :: p.shortNames).any fun n => normalizeName n == name).map Property.chars

/-- The script of a normalized name. -/
def scriptNamed? (name : String) : Option Script :=
  scripts.find? fun s => (s.name :: s.shortNames).any fun n => normalizeName n == name

/-- The characters of the class of a normalized name. -/
def segmentChars? (classes : List SegmentClass) (name : String) : Option CharSet :=
  (classes.find? fun k => normalizeName k.name == name || normalizeName k.shortName == name).map
    SegmentClass.chars

/-- The characters of an edition, which is written `5.1` or `v51`. -/
def editionChars? (name : String) : Option CharSet :=
  (editions.find? fun e =>
    toString e.major ++ "." ++ toString e.minor == name ||
      "v" ++ toString e.major ++ toString e.minor == name).map fun e => charsUpTo e.major e.minor

/-- Names of scripts and categories that hold no characters. -/
def emptyNames : List String :=
  ["cs", "surrogate", "zzzz", "unknown", "hrkt", "katakanaorhiragana"]

/-- Further properties, which no query can ask for. -/
def otherProperties : List String :=
  ["bidiclass", "bc", "bidimirroringglyph", "bmg", "bidipairedbracket", "bpb",
    "bidipairedbrackettype", "bpt", "block", "blk", "canonicalcombiningclass", "ccc",
    "casefolding", "cf", "changeswhennfkccasefolded", "cwkcf", "cjkaccountingnumeric",
    "kaccountingnumeric", "cjkcompatibilityvariant", "kcompatibilityvariant", "cjkiicore",
    "kiicore", "cjkirggsource", "kirggsource", "cjkirghsource", "kirghsource", "cjkirgjsource",
    "kirgjsource", "cjkirgkpsource", "kirgkpsource", "cjkirgksource", "kirgksource",
    "cjkirgmsource", "kirgmsource", "cjkirgssource", "kirgssource", "cjkirgtsource",
    "kirgtsource", "cjkirguksource", "kirguksource", "cjkirgusource", "kirgusource",
    "cjkirgvsource", "kirgvsource", "cjkmandarin", "kmandarin", "cjkothernumeric",
    "kothernumeric", "cjkprimarynumeric", "kprimarynumeric", "cjkrsunicode", "krsunicode",
    "unicoderadicalstroke", "urs", "cjktotalstrokes", "ktotalstrokes", "cjkunihancore2020",
    "kunihancore2020", "compositionexclusion", "ce", "decompositionmapping", "dm",
    "decompositiontype", "dt", "eastasianwidth", "ea", "equivalentunifiedideograph", "equideo",
    "expandsonnfc", "xonfc", "expandsonnfd", "xonfd", "expandsonnfkc", "xonfkc", "expandsonnfkd",
    "xonfkd", "fcnfkcclosure", "fcnfkc", "fullcompositionexclusion", "compex",
    "hangulsyllabletype", "hst", "indicconjunctbreak", "incb", "indicpositionalcategory", "inpc",
    "indicsyllabiccategory", "insc", "isocomment", "isc", "jamoshortname", "jsn",
    "joininggroup", "jg", "joiningtype", "jt", "kehcat", "kehdesc", "kehhg", "kehifao",
    "kehjsesh", "kehnomirror", "kehnorotate", "kehunik", "linebreak", "lb", "lowercasemapping",
    "lc", "name", "na", "namealias", "nfcquickcheck", "nfcqc", "nfdquickcheck", "nfdqc",
    "nfkccasefold", "nfkccf", "nfkcquickcheck", "nfkcqc", "nfkcsimplecasefold", "nfkcscf",
    "nfkdquickcheck", "nfkdqc", "numerictype", "nt", "numericvalue", "nv", "simplecasefolding",
    "scf", "sfc", "simplelowercasemapping", "slc", "simpletitlecasemapping", "stc",
    "simpleuppercasemapping", "suc", "titlecasemapping", "tc", "unicode1name", "na1",
    "uppercasemapping", "uc", "verticalorientation", "vo"]

/-- The characters that a query asks for; whether it excludes them is left open. A name may stand
for a property, a category or a script. -/
def propertyChars (query : PropertyQuery) : Except ReadError Intervals :=
  match query with
  | .named name =>
    let name := normalizeName name
    match (binaryChars? name <|> categoryChars? name) <|> (scriptNamed? name).map Script.chars with
    | some s => .ok (.ofChars s)
    | none =>
      .error (if emptyNames.contains name then .propertyValueNotFound else .propertyNotFound)
  | .valued name value _ =>
    let value := normalizeName value
    let find (chars? : Option CharSet) : Except ReadError Intervals :=
      match chars? with
      | some s => .ok (.ofChars s)
      | none => .error .propertyValueNotFound
    match normalizeName name with
    | "gc" | "generalcategory" => find (categoryChars? value)
    | "sc" | "script" => find ((scriptNamed? value).map Script.chars)
    | "scx" | "scriptextensions" => find ((scriptNamed? value).map Script.usedChars)
    | "age" => find (editionChars? value)
    | "gcb" | "graphemeclusterbreak" => find (segmentChars? clusterClasses value)
    | "wb" | "wordbreak" => find (segmentChars? wordClasses value)
    | "sb" | "sentencebreak" => find (segmentChars? sentenceClasses value)
    | name =>
      if (binaryChars? name).isSome || otherProperties.contains name then find none
      else .error .propertyNotFound

end GrammarKit.Regex
