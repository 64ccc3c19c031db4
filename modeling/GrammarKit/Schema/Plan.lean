import GrammarKit.Generation
import GrammarKit.Grammar.Generator
import GrammarKit.Naming.Resolution

/-!
# The plan of the generated types

All declarations of the generated types, with every name found. A declaration refers to the other
nodes by their type names, so cycles and any order of nodes are fine.

* `TokenDecl`, `UnionDecl`, `DeductionDecl`: the declarations.
* `SchemaPlan`, `SchemaPlan.build`: all declarations for a model.
* `planSchema`: the plan, or what is wrong.
-/

namespace GrammarKit

/-- The declaration for a token. A type from outside is used as it is. -/
structure TokenDecl where
  node : String
  type : String
  variant : String
  doc : Option String
  mapped : Bool
deriving Repr, DecidableEq, Inhabited

/-- A variant of a union. -/
structure VariantDecl where
  node : String
  variant : String
  type : String
  /-- Members that are unions stand in boxes, so that cycles of unions have a size. -/
  boxed : Bool
  /-- The member is a generated union, which tells the type of its node itself. -/
  nested : Bool
deriving Repr, DecidableEq, Inhabited

/-- The declaration for a union. -/
structure UnionDecl where
  node : String
  type : String
  doc : Option String
  variants : List VariantDecl
  mapped : Bool
deriving Repr, DecidableEq, Inhabited

/-- A field of a deduction. -/
structure FieldDecl where
  property : String
  field : String
  target : String
  type : String
deriving Repr, DecidableEq, Inhabited

/-- The declaration for a deduction. -/
structure DeductionDecl where
  node : String
  type : String
  variant : String
  module : String
  doc : Option String
  fields : List FieldDecl
  mapped : Bool
deriving Repr, DecidableEq, Inhabited

/-- **All declarations for a model.** -/
structure SchemaPlan where
  grammar : String
  version : String
  start : String
  rootType : String
  tokens : List TokenDecl
  unions : List UnionDecl
  deductions : List DeductionDecl
deriving Repr, DecidableEq, Inhabited

/-- A pattern as documentation shows it. -/
def Pattern.caption : Pattern → String
  | .literal text => Code.debugText text
  | .regex source => "/" ++ source ++ "/"

namespace SchemaPlan

/-- The documentation of a node: its description, or else what is known about it. -/
def docOf (includeDocumentation : Bool) (description : Option String) (known : String) :
    Option String :=
  if includeDocumentation then some (description.getD known) else none

/-- The declaration for a node that is a token. -/
def tokenDecl? (names : Names) (docs : Bool) (e : NamedNode) : Option TokenDecl :=
  match e.2.body with
  | .token pattern => some {
      node := e.1
      type := names.typeOf e.1
      variant := names.variantOf e.1
      doc := docOf docs e.2.description
        ("`" ++ e.1 ++ "` token matching `" ++ pattern.caption ++ "`.")
      mapped := names.isMapped e.1 }
  | _ => none

/-- The variant for a member of a union. -/
def variantDecl (m : Model) (names : Names) (member : String) : VariantDecl where
  node := member
  variant := names.variantOf member
  type := names.typeOf member
  boxed := m.kindOf? member = some .union
  nested := m.kindOf? member = some .union && !names.isMapped member

/-- The declaration for a node that is a union. -/
def unionDecl? (m : Model) (names : Names) (docs : Bool) (e : NamedNode) : Option UnionDecl :=
  match e.2.body with
  | .union members => some {
      node := e.1
      type := names.typeOf e.1
      doc := docOf docs e.2.description
        ("`" ++ e.1 ++ "`: one of " ++ " | ".intercalate members ++ ".")
      variants := members.map (variantDecl m names)
      mapped := names.isMapped e.1 }
  | _ => none

/-- The field for an element with a property. -/
def fieldDecl? (names : Names) (e : Element) : Option FieldDecl :=
  e.property.map fun property => {
    property
    field := names.fieldOf property
    target := e.target
    type := names.typeOf e.target }

/-- The declaration for a node that is a deduction. -/
def deductionDecl? (names : Names) (docs : Bool) (e : NamedNode) : Option DeductionDecl :=
  match e.2.body with
  | .deduction elements => some {
      node := e.1
      type := names.typeOf e.1
      variant := names.variantOf e.1
      module := names.moduleOf e.1
      doc := docOf docs e.2.description
        ("`" ++ e.1 ++ "` = " ++ " ".intercalate (elements.map Element.caption))
      fields := elements.filterMap (fieldDecl? names)
      mapped := names.isMapped e.1 }
  | _ => none

/-- The declarations for a model, in model order within each kind. -/
def build (m : Model) (names : Names) (docs : Bool) : SchemaPlan where
  grammar := m.name
  version := m.version
  start := m.start
  rootType := names.typeOf m.start
  tokens := m.nodes.entries.filterMap (tokenDecl? names docs)
  unions := m.nodes.entries.filterMap (unionDecl? m names docs)
  deductions := m.nodes.entries.filterMap (deductionDecl? names docs)

/-- The names of all nodes: tokens, then unions, then deductions. -/
def nodeTypes (p : SchemaPlan) : List String :=
  p.tokens.map TokenDecl.node ++ p.unions.map UnionDecl.node ++ p.deductions.map DeductionDecl.node

/-- The unions that are declared. -/
def declaredUnions (p : SchemaPlan) : List UnionDecl := p.unions.filter (!·.mapped)

/-- The deductions that are declared. -/
def declaredDeductions (p : SchemaPlan) : List DeductionDecl := p.deductions.filter (!·.mapped)

/-- The tokens that are declared. -/
def declaredTokens (p : SchemaPlan) : List TokenDecl := p.tokens.filter (!·.mapped)

end SchemaPlan

/-- **The plan of the types for a model**, or what is wrong. -/
def planSchema (m : Model) (naming : Naming) (c : SchemaConfig) :
    Except (List String) SchemaPlan :=
  if m.faults ≠ [] then .error m.faultMessages
  else match resolveNames naming m with
    | .ok names => .ok (.build m names c.includeDocumentation)
    | .error errors => .error (errors.map NamingError.message)

end GrammarKit
