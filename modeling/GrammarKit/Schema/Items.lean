import GrammarKit.Code.File
import GrammarKit.Schema.Plan

/-!
# Declarations of the generated types

A token becomes a structure with a value, a deduction one with a boxed field per property, and a
union an enumeration of its members. One more enumeration covers all tokens, and one all values.

* `Conversion`: how a value becomes one of an enumeration.
* `tokenItem`, `deductionItem`, `unionItem`, `sumItem`: the declarations.
* `SchemaPlan.constants`, `SchemaPlan.rootAlias`, `SchemaPlan.anyNode`: declarations for the whole
  model.
-/

namespace GrammarKit

open Code

/-- The function that tells the type of a node. -/
def nodeTypeFunction (body : List Token) : List Token :=
  words "pub fn node_type" ++ paren (words "& self") ++ words "-> & 'static str" ++ brace body

/-- The constant that names the type of a node. -/
def typeConstant (node : String) : List Token :=
  words "pub const TYPE : & 'static str =" ++ [textLiteral node] ++ words ";"

/-! ## Conversions -/

/-- **A conversion** of the type `source` into the enumeration `target` by one of its variants. -/
structure Conversion where
  source : List Token
  target : List Token
  variant : String
  boxed : Bool

/-- The item that declares a conversion. -/
def Conversion.item (c : Conversion) : List Token :=
  words "impl From <" ++ c.source ++ words "> for" ++ c.target ++
    brace (words "fn from" ++ paren (words "node :" ++ c.source) ++ words "-> Self" ++
      brace (words "Self ::" ++ nameTokens c.variant ++
        paren (if c.boxed then words "Box :: new" ++ paren (words "node") else words "node")))

/-- The conversions into a union. -/
def UnionDecl.conversions (d : UnionDecl) : List Conversion :=
  d.variants.map fun v => ⟨typeTokens v.type, nameTokens d.type, v.variant, v.boxed⟩

/-- A variant of an enumeration of values: its node, its name and its type. -/
structure SumVariant where
  node : String
  variant : String
  type : String
deriving Repr, DecidableEq

/-- The conversions into an enumeration of values. -/
def sumConversions (sum : String) (variants : List SumVariant) : List Conversion :=
  variants.map fun v => ⟨typeTokens v.type, nameTokens sum, v.variant, false⟩

/-! ## Declarations -/

/-- The declaration for a token. -/
def tokenItem (d : TokenDecl) : List Token :=
  docLines d.doc ++ deriveValue ++
    words "pub struct" ++ nameTokens d.type ++ brace (words "pub value : String ,") ++
    words "impl" ++ nameTokens d.type ++ brace (typeConstant d.node ++
      words "pub fn new" ++ paren (words "value : impl Into < String >") ++ words "-> Self" ++
        brace (words "Self" ++ brace (words "value : value . into" ++ paren [])) ++
      nodeTypeFunction (words "Self :: TYPE"))

/-- A field of the declaration for a deduction. -/
def fieldTokens (f : FieldDecl) : List Token :=
  words "pub" ++ nameTokens f.field ++ words ": Box <" ++ typeTokens f.type ++ words "> ,"

/-- The declaration for a deduction. -/
def deductionItem (d : DeductionDecl) : List Token :=
  docLines d.doc ++ deriveValue ++
    words "pub struct" ++ nameTokens d.type ++ brace (d.fields.flatMap fieldTokens) ++
    words "impl" ++ nameTokens d.type ++
      brace (typeConstant d.node ++ nodeTypeFunction (words "Self :: TYPE"))

/-- A variant of the declaration for a union. -/
def variantTokens (v : VariantDecl) : List Token :=
  let type := typeTokens v.type
  nameTokens v.variant ++ paren (if v.boxed then words "Box <" ++ type ++ words ">" else type)

/-- How a variant tells the type of its node. -/
def variantArm (v : VariantDecl) : List Token :=
  words "Self ::" ++ nameTokens v.variant ++
    (if v.nested then paren (words "ref inner") ++ words "=> inner . node_type" ++ paren []
    else paren (words "_") ++ words "=>" ++ [textLiteral v.node])

/-- The declaration for a union. -/
def unionItem (d : UnionDecl) : List Token :=
  docLines d.doc ++ deriveValue ++
    words "pub enum" ++ nameTokens d.type ++ brace (commaEnded (d.variants.map variantTokens)) ++
    words "impl" ++ nameTokens d.type ++ brace (nodeTypeFunction
      (words "match * self" ++ brace (commaEnded (d.variants.map variantArm)))) ++
    d.conversions.flatMap Conversion.item

/-- An enumeration of values. -/
def sumItem (sum : String) (variants : List SumVariant) : List Token :=
  deriveValue ++
    words "pub enum" ++ nameTokens sum ++
      brace (commaEnded (variants.map fun v =>
        nameTokens v.variant ++ paren (typeTokens v.type))) ++
    words "impl" ++ nameTokens sum ++ brace (nodeTypeFunction
      (words "match * self" ++ brace (commaEnded (variants.map fun v =>
        words "Self ::" ++ nameTokens v.variant ++ paren (words "_") ++ words "=>" ++
          [textLiteral v.node])))) ++
    (sumConversions sum variants).flatMap Conversion.item

/-- A constant that holds a text. -/
def textConstant (constant text : String) : List Token :=
  words "pub const" ++ nameTokens constant ++ words ": & str =" ++ [textLiteral text] ++ words ";"

/-- A constant that holds texts. -/
def textsConstant (constant : String) (texts : List String) : List Token :=
  words "pub const" ++ nameTokens constant ++ words ": &" ++ bracket (words "& str") ++
    words "= &" ++ bracket (commaSeparated (texts.map fun s => [textLiteral s])) ++ words ";"

namespace SchemaPlan

/-- The constants. -/
def constants (p : SchemaPlan) : List Token :=
  textConstant "GRAMMAR_NAME" p.grammar ++ textConstant "GRAMMAR_VERSION" p.version ++
    textConstant "START_NODE" p.start ++
    textsConstant "TOKEN_TYPES" (p.tokens.map TokenDecl.node) ++
    textsConstant "UNION_TYPES" (p.unions.map UnionDecl.node) ++
    textsConstant "DEDUCTION_TYPES" (p.deductions.map DeductionDecl.node) ++
    textsConstant "NODE_TYPES" p.nodeTypes

/-- The variants for the tokens. -/
def tokenVariants (p : SchemaPlan) : List SumVariant :=
  p.tokens.map fun d => ⟨d.node, d.variant, d.type⟩

/-- The variants for all values. -/
def valueVariants (p : SchemaPlan) : List SumVariant :=
  p.tokenVariants ++ p.deductions.map fun d => ⟨d.node, d.variant, d.type⟩

/-- The declarations for the tokens. -/
def tokenItems (p : SchemaPlan) : List (List Token) :=
  p.declaredTokens.map tokenItem ++
    if p.tokens = [] then [] else [sumItem "AnyToken" p.tokenVariants]

/-- The name for the type of the start node. -/
def rootAlias (p : SchemaPlan) : List Token :=
  words "pub type Root =" ++ typeTokens p.rootType ++ words ";"

/-- The enumeration of all values. -/
def anyNode (p : SchemaPlan) : List Token := sumItem "AnyNode" p.valueVariants

/-- All conversions. -/
def conversions (p : SchemaPlan) : List Conversion :=
  (if p.tokens = [] then [] else sumConversions "AnyToken" p.tokenVariants) ++
    p.declaredUnions.flatMap UnionDecl.conversions ++ sumConversions "AnyNode" p.valueVariants

end SchemaPlan

end GrammarKit
