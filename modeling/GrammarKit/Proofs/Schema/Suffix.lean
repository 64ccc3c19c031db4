import GrammarKit.Proofs.Naming.Plain
import GrammarKit.Proofs.Parser.Acceptance
import GrammarKit.Proofs.Schema.Lookup

/-!
# Suffixes of token types

The suffix behind the types of tokens is read where a name for a type is chosen, and nowhere else.
It reaches a plan through the names, at every place where the type of a token stands.

* `Names.retype`, `SchemaPlan.retype`: names and plans in which other types stand for the nodes.
* `Model.isSuffixed`: the tokens whose types have a suffix.
* `namesOf_tokenSuffix`: names with another suffix.
* `SchemaPlan.build_retype`: other types go through a plan unchanged.
* **`planSchema_tokenSuffix`**: plans that differ in the suffix of tokens.
-/

namespace GrammarKit

/-! ## Other types -/

/-- The names with another type for each node. -/
def Names.retype (names : Names) (f : String → String → String) : Names where
  nodes := names.nodes.map fun node x => { x with type := f node x.type }
  fields := names.fields

/-- **The plan with another type wherever the type of a node stands.** -/
def SchemaPlan.retype (p : SchemaPlan) (f : String → String → String) : SchemaPlan where
  grammar := p.grammar
  version := p.version
  start := p.start
  rootType := f p.start p.rootType
  tokens := p.tokens.map fun t => { t with type := f t.node t.type }
  unions := p.unions.map fun u => { u with
    type := f u.node u.type
    variants := u.variants.map fun v => { v with type := f v.node v.type } }
  deductions := p.deductions.map fun d => { d with
    type := f d.node d.type
    fields := d.fields.map fun x => { x with type := f x.target x.type } }

namespace Names

variable {names : Names} {f : String → String → String}

theorem get?_retype (node : String) :
    (names.retype f).nodes.get? node =
      (names.nodes.get? node).map fun x => { x with type := f node x.type } :=
  Table.get?_map _ _ node

/-- What is read from the names for a node beside its type stays. -/
theorem lookup_retype {g : NodeNames → String} (hg : ∀ x type, g { x with type } = g x)
    (node : String) : (names.retype f).lookup g node = names.lookup g node := by
  rw [lookup, lookup, get?_retype, Option.map_map]
  exact congrArg (Option.getD · node) (congrArg (Option.map · _) (funext fun x => hg x _))

@[simp] theorem functionOf_retype (node : String) :
    (names.retype f).functionOf node = names.functionOf node := lookup_retype (fun _ _ => rfl) node

@[simp] theorem variantOf_retype (node : String) :
    (names.retype f).variantOf node = names.variantOf node := lookup_retype (fun _ _ => rfl) node

@[simp] theorem moduleOf_retype (node : String) :
    (names.retype f).moduleOf node = names.moduleOf node := lookup_retype (fun _ _ => rfl) node

@[simp] theorem fieldOf_retype (property : String) :
    (names.retype f).fieldOf property = names.fieldOf property := rfl

@[simp] theorem isMapped_retype (node : String) :
    (names.retype f).isMapped node = names.isMapped node := by
  rw [isMapped, isMapped, get?_retype, Option.map_map]
  rfl

/-- A node without names has its own name for a type, which has to stay. -/
theorem typeOf_retype {node : String} (h : names.nodes.get? node = none → f node node = node) :
    (names.retype f).typeOf node = f node (names.typeOf node) := by
  rw [typeOf, typeOf, lookup, lookup, get?_retype]
  cases hx : names.nodes.get? node with
  | none => exact (h hx).symm
  | some x => rfl

end Names

section Build

variable {m : Model} {names : Names} {f : String → String → String}
  (h : ∀ node, (names.retype f).typeOf node = f node (names.typeOf node))

include h

theorem SchemaPlan.tokenDecl?_retype (docs : Bool) (e : NamedNode) :
    tokenDecl? (names.retype f) docs e =
      (tokenDecl? names docs e).map fun t => { t with type := f t.node t.type } := by
  unfold tokenDecl?
  cases e.2.body <;> simp [h]

theorem SchemaPlan.unionDecl?_retype (docs : Bool) (e : NamedNode) :
    unionDecl? m (names.retype f) docs e =
      (unionDecl? m names docs e).map fun u => { u with
        type := f u.node u.type
        variants := u.variants.map fun v => { v with type := f v.node v.type } } := by
  unfold unionDecl?
  cases e.2.body <;> simp [h, variantDecl]

theorem SchemaPlan.fieldDecl?_retype (x : Element) :
    fieldDecl? (names.retype f) x =
      (fieldDecl? names x).map fun d => { d with type := f d.target d.type } := by
  unfold fieldDecl?
  cases x.property <;> simp [h]

theorem SchemaPlan.deductionDecl?_retype (docs : Bool) (e : NamedNode) :
    deductionDecl? (names.retype f) docs e =
      (deductionDecl? names docs e).map fun d => { d with
        type := f d.node d.type
        fields := d.fields.map fun x => { x with type := f x.target x.type } } := by
  unfold deductionDecl?
  cases e.2.body <;> simp [h, funext (fieldDecl?_retype h), List.map_filterMap]

/-- **Other types go through a plan unchanged**: it has them where the types of the nodes stand,
and is the same elsewhere. -/
theorem SchemaPlan.build_retype (docs : Bool) :
    build m (names.retype f) docs = (build m names docs).retype f := by
  unfold build retype
  simp only [h, List.map_filterMap, funext (tokenDecl?_retype h docs),
    funext (unionDecl?_retype h docs), funext (deductionDecl?_retype h docs)]

end Build

/-! ## Suffixes -/

/-- **The node is a token whose type is generated**, and so has the suffix of tokens. -/
def Model.isSuffixed (m : Model) (c : Naming) (node : String) : Bool :=
  m.kindOf? node = some .token && (c.typeMapping.get? node).isNone

/-- The type of a node, where those of tokens have this suffix. -/
def Model.suffixed (m : Model) (c : Naming) (suffix node type : String) : String :=
  if m.isSuffixed c node then pascalCase node ++ suffix else type

variable {m : Model} {c : Naming}

theorem chosenType_tokenSuffix (suffix : String) {e : NamedNode} (he : e ∈ m.nodes.entries) :
    chosenType { c with tokenSuffix := suffix } e = m.suffixed c suffix e.1 (chosenType c e) := by
  have hkind : m.kindOf? e.1 = some e.2.kind := by
    rw [Model.kindOf?, Model.node?_eq_some_iff.2 he, Option.map_some]
  unfold chosenType mappedType? Model.suffixed Model.isSuffixed
  rw [hkind]
  cases hpath : c.typeMapping.get? e.1 with
  | some path => simp
  | none => cases hk : e.2.kind <;> simp [typeName]

/-- **Names with another suffix** are the same names with other types for the suffixed tokens. -/
theorem namesOf_tokenSuffix (suffix : String) :
    namesOf { c with tokenSuffix := suffix } m = (namesOf c m).retype (m.suffixed c suffix) := by
  unfold namesOf Names.retype
  congr 1
  refine Table.ext ?_
  simp only [Table.map, List.map_map]
  refine List.map_congr_left fun e he => congrArg (Prod.mk e.1) ?_
  simp only [nodeNames, chosenType_tokenSuffix suffix he]
  rfl

section Suffixed

variable {node : String} {suffix type : String}

theorem suffixed_of_isSuffixed (h : m.isSuffixed c node = true) :
    m.suffixed c suffix node type = pascalCase node ++ suffix := by
  rw [Model.suffixed, if_pos h]

theorem suffixed_eq_self (h : m.isSuffixed c node = false) :
    m.suffixed c suffix node type = type := by
  rw [Model.suffixed, h, if_neg Bool.false_ne_true]

theorem isSuffixed_of_get?_eq_none (h : (namesOf c m).nodes.get? node = none) :
    m.isSuffixed c node = false := by
  rw [get?_namesOf, Option.map_eq_none_iff] at h
  rw [Model.isSuffixed, Model.kindOf?, h]
  rfl

end Suffixed

theorem typeOf_suffixed (suffix node : String) :
    ((namesOf c m).retype (m.suffixed c suffix)).typeOf node =
      m.suffixed c suffix node ((namesOf c m).typeOf node) :=
  Names.typeOf_retype fun h => suffixed_eq_self (isSuffixed_of_get?_eq_none h)

/-- **Names that differ in the suffix of tokens alone.** -/
structure Names.DifferInSuffix (m : Model) (c : Naming) (suffix : String) (names other : Names) :
    Prop where
  function : ∀ node, other.functionOf node = names.functionOf node
  variant : ∀ node, other.variantOf node = names.variantOf node
  module : ∀ node, other.moduleOf node = names.moduleOf node
  field : ∀ property, other.fieldOf property = names.fieldOf property
  mapped : ∀ node, other.isMapped node = names.isMapped node
  type : ∀ node, m.isSuffixed c node = false → other.typeOf node = names.typeOf node
  suffixed : ∀ node, m.isSuffixed c node = true →
    names.typeOf node = pascalCase node ++ c.tokenSuffix ∧
      other.typeOf node = pascalCase node ++ suffix

theorem differInSuffix_namesOf (suffix : String) :
    (namesOf c m).DifferInSuffix m c suffix (namesOf { c with tokenSuffix := suffix } m) := by
  -- the names have the suffix that they were made with
  have hself (node : String) : (namesOf c m).typeOf node =
      m.suffixed c c.tokenSuffix node ((namesOf c m).typeOf node) := by
    rw [← typeOf_suffixed, ← namesOf_tokenSuffix c.tokenSuffix]
  rw [namesOf_tokenSuffix suffix]
  refine ⟨Names.functionOf_retype, Names.variantOf_retype, Names.moduleOf_retype,
    Names.fieldOf_retype, Names.isMapped_retype, fun node h => ?_, fun node h => ⟨?_, ?_⟩⟩
  · rw [typeOf_suffixed, suffixed_eq_self h]
  · rw [hself, suffixed_of_isSuffixed h]
  · rw [typeOf_suffixed, suffixed_of_isSuffixed h]

theorem SchemaPlan.build_tokenSuffix (m : Model) (c : Naming) (suffix : String) (docs : Bool) :
    build m (namesOf { c with tokenSuffix := suffix } m) docs =
      (build m (namesOf c m) docs).retype (m.suffixed c suffix) := by
  rw [namesOf_tokenSuffix suffix, build_retype (typeOf_suffixed suffix)]

/-! ## Plans -/

/-- **Plans that differ in the suffix of tokens.** Each is the other one with its own suffix behind
the types of tokens, wherever they stand, and the names differ there alone. -/
theorem planSchema_tokenSuffix {suffix : String} {config : SchemaConfig} {p q : SchemaPlan}
    (hp : planSchema m c config = .ok p)
    (hq : planSchema m { c with tokenSuffix := suffix } config = .ok q) :
    q = p.retype (m.suffixed c suffix) ∧ p = q.retype (m.suffixed c c.tokenSuffix) ∧
    ∃ names other, resolveNames c m = .ok names ∧
      resolveNames { c with tokenSuffix := suffix } m = .ok other ∧
      names.DifferInSuffix m c suffix other := by
  obtain ⟨-, hnames, rfl⟩ := planSchema_eq_ok_iff.1 hp
  obtain ⟨-, hother, rfl⟩ := planSchema_eq_ok_iff.1 hq
  exact ⟨SchemaPlan.build_tokenSuffix m c suffix _,
    SchemaPlan.build_tokenSuffix m { c with tokenSuffix := suffix } c.tokenSuffix _,
    _, _, resolveNames_eq_ok_iff.2 ⟨rfl, hnames⟩, resolveNames_eq_ok_iff.2 ⟨rfl, hother⟩,
    differInSuffix_namesOf suffix⟩

/-- Pairs have plans with `Token` and with `Leaf` behind the types of tokens, also where a token is
the member of a union or stands in a field. -/
theorem planSchema_tokenSuffix_pairs : ∃ p q, planSchema .pairs {} {} = .ok p ∧
    planSchema .pairs { tokenSuffix := "Leaf" } {} = .ok q ∧
    q = p.retype (Model.pairs.suffixed {} "Leaf") ∧
    p.tokens.map TokenDecl.type = ["WordToken", "CommaToken"] ∧
    q.tokens.map TokenDecl.type = ["WordLeaf", "CommaLeaf"] ∧
    q.unions.map (fun u => u.variants.map VariantDecl.type) = [["PairNode", "WordLeaf"]] ∧
    q.deductions.map (fun d => d.fields.map FieldDecl.type) = [["WordLeaf", "Rest"]] := by
  have hplan {c : Naming} (h : Model.pairs.hasPlainNames c = true) :
      planSchema .pairs c {} = .ok (.build .pairs (plainNamesOf c .pairs) true) :=
    planSchema_eq_ok_iff.2
      ⟨Model.isAccepted_pairs.valid, Model.isNameable_of_hasPlainNames h, by
        rw [namesOf_eq_plain h]⟩
  have hp := hplan (c := {}) (by decide +kernel)
  have hq := hplan (c := { tokenSuffix := "Leaf" }) (by decide +kernel)
  exact ⟨_, _, hp, hq, (planSchema_tokenSuffix hp hq).1, by decide +kernel, by decide +kernel,
    by decide +kernel, by decide +kernel⟩

end GrammarKit
