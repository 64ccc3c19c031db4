import GrammarKit.Schema.Generator
import Mathlib.Data.List.Perm.Basic

/-!
# What the generated types declare

Unions, tokens and all values become enumerations of one form: variants, the type of the node of
each, and a conversion of each type. Their text is spelled out here token by token, as is that of a
deduction with its fields, so that what is said about variants, fields and conversions is said about
the text.

* `SumDecl`, `SumDecl.tokens`: an enumeration before it is printed, and its text.
* **`unionItem_eq`**, **`sumItem_eq`**: unions and values are declared by enumerations, printed.
* **`deductionItem_eq`**: a deduction is declared with its fields.
* `SchemaPlan.sums`: the enumerations of a plan.
* **`SchemaPlan.items_perm`**, **`SchemaPlan.conversions_eq`**: they are among the items, and all
  conversions stand in them.
-/

namespace GrammarKit

open Code

/-! ## Enumerations -/

/-- **An enumeration before it is printed.** -/
structure SumDecl where
  doc : Option String
  type : String
  variants : List VariantDecl

/-- The enumeration for a union. -/
def UnionDecl.sum (d : UnionDecl) : SumDecl := ⟨d.doc, d.type, d.variants⟩

/-- The enumeration of values. Each variant knows its node, and holds its value as it is. -/
def sumOf (type : String) (variants : List SumVariant) : SumDecl where
  doc := none
  type := type
  variants := variants.map fun v => ⟨v.node, v.variant, v.type, false, false⟩

namespace VariantDecl

/-- The text of a variant. -/
def spelled (v : VariantDecl) : List Token :=
  [.unit v.variant, .group .paren (if v.boxed then
    [.unit "Box", .unit "<"] ++ typeTokens v.type ++ [.unit ">"] else typeTokens v.type), .unit ","]

/-- How a variant tells the type of its node: it asks the value that it holds, or knows it. -/
def spelledArm (v : VariantDecl) : List Token :=
  [.unit "Self", .unit "::", .unit v.variant] ++ (if v.nested then
    [.group .paren [.unit "ref", .unit "inner"], .unit "=>", .unit "inner", .unit ".",
      .unit "node_type", .group .paren []]
    else [.group .paren [.unit "_"], .unit "=>", .unit (quoted v.node)]) ++ [.unit ","]

end VariantDecl

/-- The text of a conversion. -/
def Conversion.spelled (c : Conversion) : List Token :=
  [.unit "impl", .unit "From", .unit "<"] ++ c.source ++ [.unit ">", .unit "for"] ++ c.target ++
    [.group .brace [.unit "fn", .unit "from",
      .group .paren ([.unit "node", .unit ":"] ++ c.source), .unit "->", .unit "Self",
      .group .brace [.unit "Self", .unit "::", .unit c.variant, .group .paren (if c.boxed then
        [.unit "Box", .unit "::", .unit "new", .group .paren [.unit "node"]]
        else [.unit "node"])]]]

namespace SumDecl

/-- The conversions into an enumeration. -/
def conversions (d : SumDecl) : List Conversion :=
  d.variants.map fun v => ⟨typeTokens v.type, [.unit d.type], v.variant, v.boxed⟩

/-- **The text of an enumeration**: its variants, what they tell, and the conversions. -/
def tokens (d : SumDecl) : List Token :=
  docLines d.doc ++ deriveValue ++
    [.unit "pub", .unit "enum", .unit d.type,
      .group .brace (d.variants.flatMap VariantDecl.spelled),
      .unit "impl", .unit d.type, .group .brace (nodeTypeFunction
        [.unit "match", .unit "*", .unit "self",
          .group .brace (d.variants.flatMap VariantDecl.spelledArm)])] ++
    d.conversions.flatMap Conversion.spelled

end SumDecl

/-- The text of a field. -/
def FieldDecl.spelled (f : FieldDecl) : List Token :=
  [.unit "pub", .unit f.field, .unit ":", .unit "Box", .unit "<"] ++ typeTokens f.type ++
    [.unit ">", .unit ","]

/-- **The text of a deduction** with its fields. -/
def DeductionDecl.tokens (d : DeductionDecl) : List Token :=
  docLines d.doc ++ deriveValue ++
    [.unit "pub", .unit "struct", .unit d.type, .group .brace (d.fields.flatMap FieldDecl.spelled),
      .unit "impl", .unit d.type, .group .brace
        (typeConstant d.node ++ nodeTypeFunction [.unit "Self", .unit "::", .unit "TYPE"])]

/-! ## Printing -/

theorem VariantDecl.spelled_eq (v : VariantDecl) : v.spelled = variantTokens v ++ [.unit ","] := by
  unfold spelled variantTokens
  split <;> rfl

theorem VariantDecl.spelledArm_eq (v : VariantDecl) :
    v.spelledArm = variantArm v ++ [.unit ","] := by
  unfold spelledArm variantArm
  split <;> rfl

theorem Conversion.spelled_eq (c : Conversion) : c.spelled = c.item := by
  unfold spelled item
  split <;> simp only [List.append_assoc] <;> rfl

/-- The text of an enumeration, put together from the texts of its parts. -/
theorem SumDecl.tokens_eq (d : SumDecl) : d.tokens = docLines d.doc ++ deriveValue ++
    words "pub enum" ++ nameTokens d.type ++ brace (commaEnded (d.variants.map variantTokens)) ++
    words "impl" ++ nameTokens d.type ++ brace (nodeTypeFunction
      (words "match * self" ++ brace (commaEnded (d.variants.map variantArm)))) ++
    d.conversions.flatMap Conversion.item := by
  have hvariants : commaEnded (d.variants.map variantTokens) =
      d.variants.flatMap VariantDecl.spelled := by
    rw [commaEnded, List.flatMap_map]
    exact List.flatMap_congr fun v _ => v.spelled_eq.symm
  have harms : commaEnded (d.variants.map variantArm) =
      d.variants.flatMap VariantDecl.spelledArm := by
    rw [commaEnded, List.flatMap_map]
    exact List.flatMap_congr fun v _ => v.spelledArm_eq.symm
  have hconversions : d.conversions.flatMap Conversion.item =
      d.conversions.flatMap Conversion.spelled :=
    List.flatMap_congr fun c _ => c.spelled_eq.symm
  rw [hvariants, harms, hconversions]
  simp only [tokens, List.append_assoc]
  rfl

/-- **A union is declared by its enumeration, printed.** -/
theorem unionItem_eq (d : UnionDecl) : unionItem d = d.sum.tokens := by
  rw [SumDecl.tokens_eq]
  rfl

/-- **Values are declared by their enumeration, printed.** -/
theorem sumItem_eq (sum : String) (variants : List SumVariant) :
    sumItem sum variants = (sumOf sum variants).tokens := by
  rw [SumDecl.tokens_eq]
  unfold sumItem sumOf sumConversions SumDecl.conversions
  simp only [List.map_map, List.append_assoc]
  rfl

theorem FieldDecl.spelled_eq (f : FieldDecl) : f.spelled = fieldTokens f := by
  simp only [spelled, fieldTokens, List.append_assoc]
  rfl

/-- **A deduction is declared with its fields.** -/
theorem deductionItem_eq (d : DeductionDecl) : deductionItem d = d.tokens := by
  have hfields : d.fields.flatMap fieldTokens = d.fields.flatMap FieldDecl.spelled :=
    List.flatMap_congr fun f _ => f.spelled_eq.symm
  simp only [deductionItem, DeductionDecl.tokens, hfields, List.append_assoc]
  rfl

/-! ## All enumerations -/

namespace SchemaPlan

/-- **The enumerations of a plan**: that of the tokens if there are any, the unions, and that of all
values. -/
def sums (p : SchemaPlan) : List SumDecl :=
  (if p.tokens = [] then [] else [sumOf "AnyToken" p.tokenVariants]) ++
    p.declaredUnions.map UnionDecl.sum ++ [sumOf "AnyNode" p.valueVariants]

/-- The items that declare no enumeration. -/
def records (p : SchemaPlan) : List (List Token) :=
  [p.constants] ++ p.declaredTokens.map tokenItem ++
    p.declaredDeductions.map DeductionDecl.tokens ++ [p.rootAlias]

/-- **The items of a plan** are its enumerations, printed, and those that declare none. -/
theorem items_perm (p : SchemaPlan) :
    p.items.Perm (p.sums.map SumDecl.tokens ++ p.records) := by
  have htokens : (if p.tokens = [] then [] else [sumItem "AnyToken" p.tokenVariants]) =
      (if p.tokens = [] then [] else [sumOf "AnyToken" p.tokenVariants]).map SumDecl.tokens := by
    split
    · rfl
    · rw [List.map_singleton, sumItem_eq]
  have hunions : unionItem = SumDecl.tokens ∘ UnionDecl.sum := funext unionItem_eq
  have hdeductions : deductionItem = DeductionDecl.tokens := funext deductionItem_eq
  unfold items sums records tokenItems anyNode
  rw [htokens, hunions, hdeductions, sumItem_eq]
  simp only [List.map_append, List.map_map, List.map_singleton]
  classical
  rw [List.perm_iff_count]
  intro item
  simp only [List.count_append, List.count_cons, List.count_nil]
  omega

/-- **All conversions** are those of the enumerations. -/
theorem conversions_eq (p : SchemaPlan) : p.conversions = p.sums.flatMap SumDecl.conversions := by
  have hsum (sum : String) (variants : List SumVariant) :
      sumConversions sum variants = (sumOf sum variants).conversions := by
    unfold sumConversions sumOf SumDecl.conversions
    rw [List.map_map]
    rfl
  unfold conversions sums
  simp only [List.flatMap_append, List.flatMap_map, List.flatMap_singleton, hsum]
  split
  · rw [List.flatMap_nil]
    rfl
  · rw [List.flatMap_singleton]
    rfl

variable {p : SchemaPlan}

theorem mem_items_of_mem_sums {d : SumDecl} (h : d ∈ p.sums) : d.tokens ∈ p.items :=
  p.items_perm.mem_iff.2 (List.mem_append_left _ (List.mem_map_of_mem h))

theorem mem_sums_of_union {d : UnionDecl} (h : d ∈ p.declaredUnions) : d.sum ∈ p.sums :=
  List.mem_append_left _ (List.mem_append_right _ (List.mem_map_of_mem h))

theorem mem_items_of_deduction {d : DeductionDecl} (h : d ∈ p.declaredDeductions) :
    d.tokens ∈ p.items :=
  p.items_perm.mem_iff.2 (List.mem_append_right _
    (List.mem_append_left _ (List.mem_append_right _ (List.mem_map_of_mem h))))

end SchemaPlan

end GrammarKit
