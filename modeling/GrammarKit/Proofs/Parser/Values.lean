import GrammarKit.Proofs.Model.Reachability
import GrammarKit.Proofs.Parser.Acceptance
import GrammarKit.Proofs.Parser.Reading
import GrammarKit.Stringify

/-!
# Values of a model

The tree of a text becomes a value that has the form its node asks for, and every such value can
be written.

* `RowOf`, **`Model.readNode_induct`**: induction over what was read.
* `Model.Conforms`: the form of a value in the place of a node.
* `fieldsOf`, `fieldValues_eq`: the members of a deduction's value.
* **`Model.Conforms.stringify`**: a value of this form can be written.
* `valueOf_of_readNode`: the tree that a node reads has such a value.
* **`parse_conforms`**: so has every text that the engine reads.
-/

namespace GrammarKit

open Peg

/-! ## Induction over readings -/

/-- A row of names of which each reads its tree from where the blanks behind the last one end. -/
inductive RowOf (P : String → Tree → List Char → List Char → Prop) :
    List String → List Tree → List Char → List Char → Prop
  | nil (s : List Char) : RowOf P [] [] s s
  | last {x : String} {tree : Tree} {s t : List Char} : P x tree s t → RowOf P [x] [tree] s t
  | cons {x y : String} {names : List String} {tree : Tree} {trees : List Tree}
    {s t u : List Char} : P x tree s t → RowOf P (y :: names) trees (dropBlanks t) u →
    RowOf P (x :: y :: names) (tree :: trees) s u

section

variable {P : String → Tree → List Char → List Char → Prop}
  {read : String → List Char → Reading (Tree × List Char)}

theorem rowOf_readRow (hP : ∀ {x s tree t}, read x s = .read (tree, t) → P x tree s t)
    {names : List String} {s t : List Char} {trees : List Tree}
    (h : readRow read names s = .read (trees, t)) : RowOf P names trees s t := by
  fun_induction readRow read names s generalizing trees t with
  | case1 s =>
    cases h
    exact .nil s
  | case2 x s =>
    obtain ⟨y, hy, h⟩ := Reading.bind_eq_read h
    cases h
    exact .last (hP hy)
  | case3 x xs s hxs ih =>
    obtain ⟨y, hy, h⟩ := Reading.bind_eq_read h
    obtain ⟨z, hz, h⟩ := Reading.bind_eq_read h
    cases h
    cases xs with
    | nil => exact absurd rfl hxs
    | cons x' xs => exact .cons (hP hy) (ih y hz)

theorem exists_of_readFirst {names : List String} {s : List Char} {y : Tree × List Char}
    (h : readFirst read names s = .read y) : ∃ x ∈ names, read x s = .read y := by
  induction names with
  | nil => cases h
  | cons x names ih =>
    rcases Reading.orElse_eq_read h with h | h
    · exact ⟨x, List.mem_cons_self, h⟩
    · obtain ⟨z, hz, h⟩ := ih h
      exact ⟨z, List.mem_cons_of_mem _ hz, h⟩

/-- **Induction over what was read**: by the kinds of nodes. -/
theorem Model.readNode_induct {m : Model} {takes : String → Taking}
    (token : ∀ {name n pattern s t}, m.node? name = some n → n.body = .token pattern →
      takes name s = .read t → P name (.node name s.length (front s t) []) s t)
    (deduction : ∀ {name n elements trees s t}, m.node? name = some n →
      n.body = .deduction elements → RowOf P (elements.map Element.target) trees s t →
      P name (.node name s.length (front s t) trees) s t)
    (union : ∀ {name n members x tree s t}, m.node? name = some n → n.body = .union members →
      x ∈ members → P x tree s t → P name tree s t)
    {depth : Nat} {name : String} {s t : List Char} {tree : Tree}
    (h : m.readNode takes depth name s = .read (tree, t)) : P name tree s t := by
  induction depth generalizing name s t tree with
  | zero => cases h
  | succ depth ih =>
    cases hn : m.node? name with
    | none =>
      rw [readNode, hn] at h
      cases h
    | some n =>
      cases hb : n.body with
      | token pattern =>
        rw [readNode_token hn _ _ _ hb] at h
        obtain ⟨t, ht, h⟩ := Reading.bind_eq_read h
        cases h
        exact token hn hb ht
      | deduction elements =>
        rw [readNode_deduction hn _ _ _ hb] at h
        obtain ⟨z, hz, h⟩ := Reading.bind_eq_read h
        cases h
        exact deduction hn hb (rowOf_readRow ih hz)
      | union members =>
        rw [readNode_union hn _ _ _ hb] at h
        obtain ⟨x, hx, h⟩ := exists_of_readFirst h
        exact union hn hb hx (ih h)

end

/-! ## The form of values -/

/-- **The form of a value in the place of a node**: its type is one that the node stands for; a
token has its type and its text, and a deduction its type and one member for each property, of the
form that the element with this property asks for. -/
inductive Model.Conforms (m : Model) : String → Json → Prop
  | token {place type : String} {n : Node} {pattern : Pattern} (text : String) :
    type ∈ m.concreteTypes place → m.node? type = some n → n.body = .token pattern →
    Conforms m place (.object [("type", .string type), ("value", .string text)])
  | deduction {place type : String} {n : Node} {elements : List Element}
    {fields : List (String × Json)} :
    type ∈ m.concreteTypes place → m.node? type = some n → n.body = .deduction elements →
    fields.map Prod.fst = elements.filterMap Element.property →
    (∀ e ∈ elements, ∀ property v, e.property = some property → (property, v) ∈ fields →
      Conforms m e.target v) →
    Conforms m place (.object (("type", .string type) :: fields))

namespace Model.Conforms

variable {m : Model} {place : String} {v : Json}

/-- A value in the place of a member can stand in the place of the union. -/
theorem of_member {name x : String} {n : Node} {members : List String}
    (hn : m.node? name = some n) (hb : n.body = .union members) (hx : x ∈ members)
    (h : m.Conforms x v) : m.Conforms name v := by
  cases h with
  | token text htype hnode hbody =>
    exact .token text (mem_concreteTypes_of_member hn hb hx htype) hnode hbody
  | deduction htype hnode hbody hkeys hfields =>
    exact .deduction (mem_concreteTypes_of_member hn hb hx htype) hnode hbody hkeys hfields

theorem type (h : m.Conforms place v) :
    ∃ type, v.textMember? "type" = some type ∧ type ∈ m.concreteTypes place := by
  cases h with
  | token text htype => exact ⟨_, rfl, htype⟩
  | deduction htype => exact ⟨_, rfl, htype⟩

end Model.Conforms

/-! ## Writing values -/

/-- A computation on a list ends well if it does on every item. -/
theorem mapM_eq_ok_iff {ε α β : Type} {f : α → Except ε β} {xs : List α} {ys : List β} :
    xs.mapM f = .ok ys ↔ List.Forall₂ (fun x y => f x = .ok y) xs ys := by
  induction xs generalizing ys with
  | nil =>
    rw [List.mapM_nil, List.forall₂_nil_left_iff]
    exact ⟨fun h => (Except.ok.inj h).symm, fun h => h ▸ rfl⟩
  | cons x xs ih =>
    rw [List.mapM_cons, List.forall₂_cons_left_iff]
    constructor
    · intro h
      obtain ⟨y, hy, h⟩ := bind_ok h
      obtain ⟨zs, hzs, h⟩ := bind_ok h
      cases h
      exact ⟨y, zs, hy, ih.1 hzs, rfl⟩
    · rintro ⟨y, zs, hy, hzs, rfl⟩
      rw [hy, ih.2 hzs]
      rfl

theorem exists_mapM_eq_ok {ε α β : Type} {f : α → Except ε β} {xs : List α}
    (h : ∀ x ∈ xs, ∃ y, f x = .ok y) : ∃ ys, xs.mapM f = .ok ys := by
  simp only [mapM_eq_ok_iff]
  induction xs with
  | nil => exact ⟨[], .nil⟩
  | cons x xs ih =>
    obtain ⟨y, hy⟩ := h x List.mem_cons_self
    obtain ⟨ys, hys⟩ := ih fun z hz => h z (List.mem_cons_of_mem _ hz)
    exact ⟨y :: ys, .cons hy hys⟩

namespace Model

/-- What an element of a deduction writes of the value of the deduction. -/
def elementTexts (m : Model) (separator type : String) (value : Json) (e : Element) :
    Except StringifyError (List String) :=
  match e.property with
  | none => .ok (m.fixedText e.target)
  | some property =>
    match value.member? property with
    | none => .error (.missingField type property)
    | some field => do
      m.checkType type property e.target field
      return [← m.stringify separator field]

variable {m : Model} {type : String} {n : Node} {value : Json}

theorem stringify_token (htype : value.textMember? "type" = some type)
    (hn : m.node? type = some n) {pattern : Pattern} (hb : n.body = .token pattern) {text : String}
    (htext : value.textMember? "value" = some text) (separator : String) :
    m.stringify separator value = .ok text := by
  rw [stringify, htype]
  simp only [hn, Option.map_some, hb, htext]

theorem stringify_deduction (htype : value.textMember? "type" = some type)
    (hn : m.node? type = some n) {elements : List Element} (hb : n.body = .deduction elements)
    (separator : String) :
    m.stringify separator value =
      elements.mapM (m.elementTexts separator type value) >>= fun parts =>
        .ok (separator.intercalate parts.flatten) := by
  rw [stringify, htype]
  simp only [hn, Option.map_some, hb]
  congr 1
  congr 1
  funext e
  rw [elementTexts]
  cases e.property with
  | none => rfl
  | some property =>
    simp only
    split
    · rename_i hm
      rw [hm]
    · rename_i field hm
      rw [hm]

/-- An element that holds a token prints its text. -/
theorem elementTexts_token {e : Element} {separator property text : String} {field : Json}
    {pattern : Pattern} (hp : e.property = some property)
    (hfield : value.member? property = some field) (hn : m.node? e.target = some n)
    (hb : n.body = .token pattern) (htype : field.textMember? "type" = some e.target)
    (htext : field.textMember? "value" = some text) :
    m.elementTexts separator type value e = .ok [text] := by
  have hplace := mem_concreteTypes_self (isConcrete_token hn hb)
  simp only [elementTexts, hp, hfield, checkType, htype, hplace, if_true]
  rw [stringify_token htype hn hb htext]
  rfl

end Model

/-- **A value of this form can be written.** -/
theorem Model.Conforms.stringify {m : Model} (hv : m.IsValid) {place : String} {v : Json}
    (h : m.Conforms place v) (separator : String) : ∃ s, m.stringify separator v = .ok s := by
  induction h with
  | token text htype hn hb => exact ⟨text, stringify_token rfl hn hb rfl separator⟩
  | @deduction place type n elements fields htype hn hb hkeys hfields ih =>
    have hnodup : ((("type", Json.string type) :: fields).map Prod.fst).Nodup := by
      rw [List.map_cons, hkeys, List.nodup_cons]
      exact ⟨fun hmem => (hv.properties hn hb _ hmem).1 rfl, hv.distinct hn hb⟩
    have helement (e : Element) (he : e ∈ elements) : ∃ texts, m.elementTexts separator type
        (.object (("type", .string type) :: fields)) e = .ok texts := by
      rw [elementTexts]
      cases hp : e.property with
      | none => exact ⟨_, rfl⟩
      | some property =>
        obtain ⟨⟨_, v⟩, hmem, rfl⟩ : ∃ field ∈ fields, field.1 = property := by
          have : property ∈ fields.map Prod.fst := by
            rw [hkeys]
            exact List.mem_filterMap.2 ⟨e, he, hp⟩
          exact List.mem_map.1 this
        have hfind : Json.member? _ (.object (("type", .string type) :: fields)) = some v :=
          (Entries.find?_eq_some_iff hnodup).2 (List.mem_cons_of_mem _ hmem)
        obtain ⟨found, hfound, hconcrete⟩ := (hfields e he _ v hp hmem).type
        obtain ⟨s, hs⟩ := ih e he _ v hp hmem
        refine ⟨[s], ?_⟩
        simp only [hfind, checkType, hfound, hconcrete, if_true, hs]
        rfl
    obtain ⟨parts, hparts⟩ := exists_mapM_eq_ok helement
    refine ⟨separator.intercalate parts.flatten, ?_⟩
    rw [stringify_deduction rfl hn hb, hparts]
    rfl

/-! ## The shapes of a model -/

namespace Model.IsNamed

variable {m : Model} {startRule : String} (h : m.IsNamed startRule) {name : String} {n : Node}
  (hn : m.node? name = some n)

include h hn

theorem get?_shapes {r : NodeRule} (hr : NodeRule.ofNode name n = .ok r) :
    (Table.ofList m.shapes).get? name = some r.shape := by
  refine Table.get?_ofList ?_ (List.mem_map.2 ⟨r, mem_rules.2 ⟨name, n, hn, hr⟩, ?_⟩)
  · have hkeys : m.shapes.map Prod.fst = m.names := by
      rw [← h.map_name_rules, shapes, List.map_map]
      rfl
    rw [hkeys]
    exact m.nodes.nodup
  · rw [NodeRule.name_ofNode hr]

theorem get?_shapes_token {pattern : Pattern} (hb : n.body = .token pattern) :
    (Table.ofList m.shapes).get? name = some .token := by
  obtain ⟨r, hr⟩ := h.rules hn
  rw [h.get?_shapes hn hr]
  rw [NodeRule.ofNode, hb] at hr
  obtain ⟨e, -, hr⟩ := bind_ok hr
  cases hr
  rfl

theorem get?_shapes_deduction {elements : List Element} (hb : n.body = .deduction elements) :
    (Table.ofList m.shapes).get? name = some (.sequence (elements.map Element.property)) := by
  obtain ⟨r, hr⟩ := h.rules hn
  rw [h.get?_shapes hn hr]
  rw [NodeRule.ofNode, hb] at hr
  cases hr
  rfl

end Model.IsNamed

/-! ## Values of trees -/

/-- The members that the values of elements fill. -/
def fieldsOf : List Element → List Json → List (String × Json)
  | e :: elements, v :: values =>
    match e.property with
    | some property => (property, v) :: fieldsOf elements values
    | none => fieldsOf elements values
  | _, _ => []

variable {shapes : Table Shape} {input : List Char}

/-- The members of a deduction's value stand in the order of its elements. -/
theorem fieldValues_eq {elements : List Element} {parts : List Tree} {values : List Json}
    {members : List (String × Json)}
    (hvalues : List.Forall₂ (fun part v => valueOf shapes input part = .ok v) parts values)
    (hlength : elements.length = parts.length)
    (hnodup : (members.map Prod.fst ++ elements.filterMap Element.property).Nodup) :
    fieldValues shapes input members (elements.map Element.property) parts =
      .ok (members ++ fieldsOf elements values) := by
  induction hvalues generalizing elements members with
  | nil =>
    rw [List.eq_nil_of_length_eq_zero hlength]
    simp [fieldValues, fieldsOf]
  | @cons part v parts values hv _ ih =>
    cases elements with
    | nil => cases hlength
    | cons e elements =>
      rw [List.filterMap_cons] at hnodup
      rw [List.map_cons, fieldsOf]
      cases hp : e.property with
      | none =>
        rw [hp] at hnodup
        rw [fieldValues]
        exact ih (Nat.succ.inj hlength) hnodup
      | some property =>
        rw [hp] at hnodup
        have hput : Entries.put property v members = members ++ [(property, v)] := by
          refine Entries.put_of_notMem (fun hmem => ?_) v
          exact (List.nodup_append.1 hnodup).2.2 _ hmem _ List.mem_cons_self rfl
        rw [fieldValues, hv]
        show fieldValues shapes input (Entries.put property v members) _ parts = _
        rw [hput, ih (Nat.succ.inj hlength) (by simpa using hnodup)]
        simp

theorem map_fst_fieldsOf {elements : List Element} {values : List Json}
    (h : elements.length = values.length) :
    (fieldsOf elements values).map Prod.fst = elements.filterMap Element.property := by
  fun_induction fieldsOf elements values with
  | case1 e elements v values property hp ih =>
    rw [List.map_cons, List.filterMap_cons, hp, ih (Nat.succ.inj h)]
  | case2 e elements v values hp ih => rw [List.filterMap_cons, hp, ih (Nat.succ.inj h)]
  | case3 elements values hne =>
    cases elements with
    | nil => rfl
    | cons e elements =>
      cases values with
      | nil => cases h
      | cons v values => exact absurd rfl (hne e elements v values rfl)

/-- The member of an element's property is the value of this element. -/
theorem forall_mem_fieldsOf {R : Element → Json → Prop} {elements : List Element}
    {values : List Json} (h : List.Forall₂ R elements values)
    (hnodup : (elements.filterMap Element.property).Nodup) :
    ∀ e ∈ elements, ∀ property v, e.property = some property →
      (property, v) ∈ fieldsOf elements values → R e v := by
  induction h with
  | nil => exact fun e he => by cases he
  | @cons e₀ v₀ elements values hR hrest ih =>
    intro e he property v hp hmem
    have hkeys := map_fst_fieldsOf hrest.length_eq
    rw [List.filterMap_cons] at hnodup
    rw [fieldsOf] at hmem
    cases hp₀ : e₀.property with
    | none =>
      rw [hp₀] at hnodup hmem
      rcases List.mem_cons.1 he with rfl | he
      · rw [hp] at hp₀
        cases hp₀
      · exact ih hnodup e he property v hp hmem
    | some property₀ =>
      rw [hp₀] at hnodup hmem
      rw [List.nodup_cons] at hnodup
      rcases List.mem_cons.1 he with rfl | he
      · rw [hp] at hp₀
        cases hp₀
        rcases List.mem_cons.1 hmem with hmem | hmem
        · cases hmem
          exact hR
        · exact absurd (hkeys ▸ List.mem_map_of_mem hmem) hnodup.1
      · rcases List.mem_cons.1 hmem with hmem | hmem
        · cases hmem
          exact absurd (List.mem_filterMap.2 ⟨e, he, hp⟩) hnodup.1
        · exact ih hnodup.2 e he property v hp hmem

theorem RowOf.exists_values {R : String → Json → List Char → List Char → Prop}
    {names : List String} {trees : List Tree} {s t : List Char}
    (h : RowOf (fun x tree s t => ∃ v, valueOf shapes input tree = .ok v ∧ R x v s t)
      names trees s t) :
    ∃ values, List.Forall₂ (fun tree v => valueOf shapes input tree = .ok v) trees values ∧
      List.Forall₂ (fun x v => ∃ s t, R x v s t) names values := by
  induction h with
  | nil => exact ⟨[], .nil, .nil⟩
  | last hP =>
    obtain ⟨v, hv, hR⟩ := hP
    exact ⟨[v], .cons hv .nil, .cons ⟨_, _, hR⟩ .nil⟩
  | cons hP _ ih =>
    obtain ⟨v, hv, hR⟩ := hP
    obtain ⟨values, hvalues, hRs⟩ := ih
    exact ⟨v :: values, .cons hv hvalues, .cons ⟨_, _, hR⟩ hRs⟩

namespace Model.IsNamed

variable {m : Model} {startRule : String} (h : m.IsNamed startRule) {name : String} {n : Node}
  (hn : m.node? name = some n)

include h hn

theorem valueOf_token {pattern : Pattern} (hb : n.body = .token pattern) (input : List Char)
    (left : Nat) (text : String) (parts : List Tree) :
    valueOf (.ofList m.shapes) input (.node name left text parts) =
      .ok (.object [("type", .string name), ("value", .string text)]) := by
  rw [valueOf.eq_def]
  simp only [h.get?_shapes_token hn hb]

theorem valueOf_deduction (hv : m.IsValid) {elements : List Element}
    (hb : n.body = .deduction elements) {input : List Char} {parts : List Tree}
    {values : List Json}
    (hvalues : List.Forall₂ (fun part v => valueOf (.ofList m.shapes) input part = .ok v)
      parts values) (hlength : elements.length = values.length) (left : Nat) (text : String) :
    valueOf (.ofList m.shapes) input (.node name left text parts) =
      .ok (.object (("type", .string name) :: fieldsOf elements values)) := by
  have hparts : elements.length = parts.length := hlength.trans hvalues.length_eq.symm
  have hnodup : ([("type", Json.string name)].map Prod.fst ++
      elements.filterMap Element.property).Nodup := by
    rw [List.map_singleton, List.singleton_append, List.nodup_cons]
    exact ⟨fun hmem => (hv.properties hn hb _ hmem).1 rfl, hv.distinct hn hb⟩
  rw [valueOf.eq_def]
  simp only [h.get?_shapes_deduction hn hb, List.length_map, hparts, if_true]
  rw [fieldValues_eq hvalues hparts hnodup]
  rfl

end Model.IsNamed

/-- **The tree that a node reads has a value of the form that the node asks for.** -/
theorem Model.IsNamed.valueOf_of_readNode {m : Model} {startRule : String}
    (h : m.IsNamed startRule) (hv : m.IsValid) {takes : String → Taking} {depth : Nat}
    {name : String} {s t : List Char} {tree : Tree}
    (hread : m.readNode takes depth name s = .read (tree, t)) (input : List Char) :
    ∃ v, valueOf (.ofList m.shapes) input tree = .ok v ∧ m.Conforms name v := by
  refine readNode_induct (P := fun name tree _ _ =>
    ∃ v, valueOf (.ofList m.shapes) input tree = .ok v ∧ m.Conforms name v) ?_ ?_ ?_ hread
  · intro name n pattern s t hn hb _
    exact ⟨_, h.valueOf_token hn hb .., .token _ (mem_concreteTypes_self (isConcrete_token hn hb)) hn hb⟩
  · intro name n elements trees s t hn hb hrow
    obtain ⟨values, hvalues, hconforms⟩ :=
      RowOf.exists_values (R := fun x v _ _ => m.Conforms x v) hrow
    rw [List.forall₂_map_left_iff] at hconforms
    have hlength := hconforms.length_eq
    refine ⟨_, h.valueOf_deduction hn hv hb hvalues hlength .., .deduction
      (mem_concreteTypes_self (isConcrete_deduction hn hb)) hn hb (map_fst_fieldsOf hlength) ?_⟩
    intro e he property v hp hmem
    obtain ⟨_, _, hc⟩ := forall_mem_fieldsOf hconforms (hv.distinct hn hb) e he property v hp hmem
    exact hc
  · rintro name n members x tree s t hn hb hx ⟨v, hvalue, hconforms⟩
    exact ⟨v, hvalue, hconforms.of_member hn hb hx⟩

/-! ## Whole texts -/

theorem Model.IsNamed.name_of_readNode {m : Model} {startRule : String} (h : m.IsNamed startRule)
    {takes : String → Taking} {depth : Nat} {name : String} {s t : List Char} {tree : Tree}
    (hread : m.readNode takes depth name s = .read (tree, t)) :
    tree.name ∉ reservedRuleNames := by
  refine readNode_induct (P := fun _ tree _ _ => tree.name ∉ reservedRuleNames) ?_ ?_ ?_ hread
  · exact fun hn _ _ => h.notMem_reserved hn
  · exact fun hn _ _ => h.notMem_reserved hn
  · exact fun _ _ _ => id

/-- The value of a whole text is that of the tree that its model reads. -/
theorem valueOfParse_startTrees {tree : Tree} (hname : tree.name ∉ reservedRuleNames)
    (shapes : Table Shape) (startRule : String) (s : List Char) :
    valueOfParse shapes s (startTrees startRule s tree) = valueOf shapes s tree := by
  have hne : tree.name ≠ "EOI" := fun heoi => hname (heoi ▸ by decide)
  simp [valueOfParse, startTrees, Tree.parts, hne]

/-- The value that was made of a text. -/
def ParseResult.value? : ParseResult → Option Json
  | value j => some j
  | error _ => none
  | stuck => none

theorem ParseResult.value?_eq_some_iff {r : ParseResult} {v : Json} :
    r.value? = some v ↔ r = .value v := by
  cases r <;> simp [value?]

theorem ParseResult.exists_eq_value {r : ParseResult} (h : r.value?.isSome = true) :
    ∃ v, r = .value v := by
  cases r with
  | value v => exact ⟨v, rfl⟩
  | error e => cases h
  | stuck => cases h

/-- A text with a value is one that the engine matches. -/
theorem CompiledParser.exists_matched {p : CompiledParser} {text : String} {v : Json}
    (h : p.parse text = .value v) :
    ∃ trees st, Peg.parseWith p.routines p.startRule text.toList = .matched trees st := by
  rw [parse] at h
  cases hmatch : Peg.parseWith p.routines p.startRule text.toList with
  | matched trees st => exact ⟨trees, st, rfl⟩
  | failed stack a => simp [hmatch] at h
  | stuck => simp [hmatch] at h

section Parse

variable {m : Model} {c : GrammarConfig} {g : Grammar} {warnings : List String} {serial : Nat}
  {p : CompiledParser} (hname : '\n' ∉ m.name.toList) (hversion : '\n' ∉ m.version.toList)
  (hg : generateGrammar m c = .done g warnings) (hp : g.source.compile serial = .ok p)

include hname hversion hg hp

/-- A compiled parser that answers runs the routines of its model. -/
theorem parser_eq {input : List Char} (h : Peg.parseWith p.routines p.startRule input ≠ .stuck) :
    p.routines = m.routines c.startRule ∧ p.startRule = c.startRule ∧
      p.shapes = .ofList m.shapes := by
  obtain ⟨-, -, hsource⟩ := generateGrammar_eq_done hg
  obtain ⟨rules, -, hstart, -, hshapes⟩ := compile_eq_ok hp
  rw [hsource] at hstart hshapes
  rcases compile_routines hg hname hversion hp with hroutines | hstuck
  · exact ⟨hroutines, hstart, hshapes⟩
  · exact absurd (hstuck input) h

/-- What the engine matches is read by the model. -/
theorem readNode_of_matched {text : String} {trees : List Tree} {st : State}
    (h : Peg.parseWith p.routines p.startRule text.toList = .matched trees st) :
    ∃ depth tree t, m.readNode (takesOf (m.routines c.startRule)) depth m.start
        (dropBlanks text.toList) = .read (tree, t) ∧ dropBlanks t = [] ∧
      trees = startTrees c.startRule text.toList tree := by
  obtain ⟨hv, hnamed, -⟩ := generateGrammar_eq_done hg
  have hanswer : Peg.parseWith p.routines p.startRule text.toList ≠ .stuck := by simp [h]
  obtain ⟨hroutines, hstart, -⟩ := parser_eq hname hversion hg hp hanswer
  rw [hroutines, hstart] at h
  have hagrees := hnamed.agrees_parseWith (a := True) (b := False) hv text.toList
    (.inl (Nat.le_succ _)) (.inr trivial)
  rw [h] at hagrees
  generalize hread : (m.readText (takesOf (m.routines c.startRule)) _ text.toList).bind _ = r
    at hagrees
  cases hagrees with
  | readingStuck _ hb => exact hb.elim
  | read trees rest attempts =>
    obtain ⟨tree, htree, hread⟩ := Reading.bind_eq_read hread
    obtain ⟨⟨_, t⟩, hy, htree⟩ := Reading.bind_eq_read htree
    split at htree
    · rename_i hend
      cases htree
      cases hread
      exact ⟨_, _, t, hy, hend, rfl⟩
    · cases htree

/-- A value is that of the tree that the model reads. -/
theorem readNode_of_value {text : String} {v : Json} (h : p.parse text = .value v) :
    ∃ depth tree t, m.readNode (takesOf (m.routines c.startRule)) depth m.start
        (dropBlanks text.toList) = .read (tree, t) ∧ dropBlanks t = [] ∧
      valueOf (.ofList m.shapes) text.toList tree = .ok v := by
  obtain ⟨trees, st, hmatch⟩ := CompiledParser.exists_matched h
  obtain ⟨-, hnamed, -⟩ := generateGrammar_eq_done hg
  have hanswer : Peg.parseWith p.routines p.startRule text.toList ≠ .stuck := by simp [hmatch]
  obtain ⟨-, -, hshapes⟩ := parser_eq hname hversion hg hp hanswer
  obtain ⟨depth, tree, t, hread, hend, htrees⟩ := readNode_of_matched hname hversion hg hp hmatch
  refine ⟨depth, tree, t, hread, hend, ?_⟩
  simp only [CompiledParser.parse, hmatch, htrees, hshapes,
    valueOfParse_startTrees (hnamed.name_of_readNode hread)] at h
  split at h
  · cases h
    assumption
  · cases h

/-- **What becomes of a text that the engine matches**: a value of the form that the start node
asks for, which can be written. -/
theorem parse_conforms {text : String} {trees : List Tree} {st : State}
    (h : Peg.parseWith p.routines p.startRule text.toList = .matched trees st) :
    ∃ v, p.parse text = .value v ∧ m.Conforms m.start v ∧
      ∀ o : StringifyOptions, ∃ s, m.stringify o.separator v = .ok s := by
  obtain ⟨hv, hnamed, -⟩ := generateGrammar_eq_done hg
  obtain ⟨depth, tree, t, hread, -, htrees⟩ := readNode_of_matched hname hversion hg hp h
  obtain ⟨v, hvalue, hconforms⟩ := hnamed.valueOf_of_readNode hv hread text.toList
  refine ⟨v, ?_, hconforms, fun o => hconforms.stringify hv o.separator⟩
  have hanswer : Peg.parseWith p.routines p.startRule text.toList ≠ .stuck := by simp [h]
  obtain ⟨-, -, hshapes⟩ := parser_eq hname hversion hg hp hanswer
  simp only [CompiledParser.parse, h, htrees, hshapes,
    valueOfParse_startTrees (hnamed.name_of_readNode hread), hvalue]

end Parse

/-- Pairs with blanks in odd places have a value, which can be written. -/
theorem parse_conforms_pairs : ∃ g warnings trees st v,
    generateGrammar .pairs {} = .done g warnings ∧
    g.source.compile 0 = .ok (Model.pairs.parser {} 0) ∧
    Peg.parseWith (Model.pairs.routines "start") "start" " a, b ,cd".toList = .matched trees st ∧
    (Model.pairs.parser {} 0).parse " a, b ,cd" = .value v ∧ Model.pairs.Conforms "Pair" v ∧
    ∀ o : StringifyOptions, ∃ s, Model.pairs.stringify o.separator v = .ok s := by
  obtain ⟨g, hg, hp⟩ := Model.isAccepted_pairs.exists_compiled 0
  have hvalue : ((Model.pairs.parser {} 0).parse " a, b ,cd").value?.isSome = true := by
    decide +kernel
  obtain ⟨_, hparse⟩ := ParseResult.exists_eq_value hvalue
  obtain ⟨trees, st, hmatched⟩ := CompiledParser.exists_matched hparse
  obtain ⟨v, hv, hconforms, hprints⟩ := parse_conforms (by decide) (by decide) hg hp hmatched
  exact ⟨g, _, trees, st, v, hg, hp, hmatched, hv, hconforms, hprints⟩

end GrammarKit
