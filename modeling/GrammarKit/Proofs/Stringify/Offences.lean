import GrammarKit.Proofs.Parser.Printing

/-!
# Values that can be written

A value is written exactly if it is well-typed: its type is that of a token with a text or of a
deduction, and the fields of a deduction are there, have types that stand in their places and are
well-typed themselves. Whatever else offends can be listed, element by element and from outside to
inside, and it is the first offence that writing reports. The choices about blanks have no part in
this.

* `Reports`: a computation ends with the first offence of a list, or well if there is none.
* `Model.IsWellTyped`: values that can be written.
* `Model.offences`: all that is wrong with a value, in the order of its elements.
* `reports_stringify`, `offences_eq_nil_iff`: offences are what writing reports, and what typing
  rules out.
* **`stringify_isOk_iff`**: writing succeeds exactly on well-typed values, whatever the choices.
-/

namespace GrammarKit

/-! ## Computations that report offences -/

/-- **A computation reports offences**: it ends with the first of them, or well if there is none. -/
def Reports {ε α : Type} (r : Except ε α) (offences : List ε) : Prop :=
  match r with
  | .ok _ => offences = []
  | .error e => offences.head? = some e

namespace Reports

variable {ε α β : Type} {r : Except ε α} {offences more : List ε}

theorem isOk_iff (h : Reports r offences) : (∃ a, r = .ok a) ↔ offences = [] := by
  cases r with
  | ok a => exact iff_of_true ⟨a, rfl⟩ h
  | error e =>
    refine iff_of_false (fun ⟨_, ha⟩ => by cases ha) fun hnil => ?_
    rw [Reports, hnil] at h
    cases h

theorem eq_error_iff (h : Reports r offences) {e : ε} :
    r = .error e ↔ offences.head? = some e := by
  cases r with
  | ok a =>
    rw [Reports] at h
    simp [h]
  | error e' =>
    rw [show offences.head? = some e' from h, Option.some.injEq, Except.error.injEq]

/-- What is computed from a result reports its offences behind those of the result. -/
theorem bind (h : Reports r offences) {f : α → Except ε β}
    (hf : ∀ a, r = .ok a → Reports (f a) more) : Reports (r >>= f) (offences ++ more) := by
  cases r with
  | ok a =>
    rw [show offences = [] from h, List.nil_append]
    exact hf a rfl
  | error e =>
    show (offences ++ more).head? = some e
    rw [List.head?_append, show offences.head? = some e from h, Option.some_or]

/-- A computation on each item reports the offences of the items, in their order. -/
theorem mapM {f : α → Except ε β} {g : α → List ε} {xs : List α}
    (h : ∀ x ∈ xs, Reports (f x) (g x)) : Reports (xs.mapM f) (xs.flatMap g) := by
  induction xs with
  | nil => exact rfl
  | cons x xs ih =>
    obtain ⟨hx, hxs⟩ := List.forall_mem_cons.1 h
    rw [List.mapM_cons, List.flatMap_cons]
    refine hx.bind fun y _ => ?_
    rw [← List.append_nil (xs.flatMap g)]
    exact (ih hxs).bind fun ys _ => rfl

end Reports

/-! ## Well-typed values -/

namespace Model

/-- **A value may stand in a place**: its type is one that the node in this place stands for. -/
def Fits (m : Model) (place : String) (v : Json) : Prop :=
  ∃ type, v.textMember? "type" = some type ∧ type ∈ m.concreteTypes place

/-- **Well-typed values**: tokens with a text, and deductions with a field for each property that
fits its place and is well-typed. -/
inductive IsWellTyped (m : Model) : Json → Prop
  | token {v : Json} {type text : String} {n : Node} {pattern : Pattern} :
    v.textMember? "type" = some type → m.node? type = some n → n.body = .token pattern →
    v.textMember? "value" = some text → IsWellTyped m v
  | deduction {v : Json} {type : String} {n : Node} {elements : List Element} :
    v.textMember? "type" = some type → m.node? type = some n → n.body = .deduction elements →
    (∀ e ∈ elements, ∀ property, e.property = some property →
      ∃ field, v.member? property = some field ∧ m.Fits e.target field) →
    (∀ e ∈ elements, ∀ property field, e.property = some property →
      v.member? property = some field → IsWellTyped m field) → IsWellTyped m v

/-! ## Offences -/

/-- What is wrong with the type of a field in its place. -/
def placeOffences (m : Model) (node property expected : String) (field : Json) :
    List StringifyError :=
  match field.textMember? "type" with
  | none => [.missingType]
  | some found =>
    if found ∈ m.concreteTypes expected then []
    else if m.has found then [.typeMismatch node property found expected]
    else [.unknownNodeType found]

/-- **All that is wrong with a value**, in the order of its elements: first a field in its place,
then the field itself. -/
def offences (m : Model) (value : Json) : List StringifyError :=
  match value.textMember? "type" with
  | none => [.missingType]
  | some type =>
    match (m.node? type).map Node.body with
    | some (.token _) =>
      if (value.textMember? "value").isSome then [] else [.missingValue type]
    | some (.deduction elements) =>
      elements.flatMap fun e =>
        match e.property with
        | none => []
        | some property =>
          match _ : value.member? property with
          | none => [.missingField type property]
          | some field => m.placeOffences type property e.target field ++ m.offences field
    | _ => [.unknownNodeType type]
termination_by sizeOf value
decreasing_by
  rename_i h
  exact Json.sizeOf_lt_of_member? h

/-- What is wrong with an element of a deduction. -/
def elementOffences (m : Model) (type : String) (value : Json) (e : Element) :
    List StringifyError :=
  match e.property with
  | none => []
  | some property =>
    match value.member? property with
    | none => [.missingField type property]
    | some field => m.placeOffences type property e.target field ++ m.offences field

variable {m : Model} {v : Json} {type : String} {n : Node}

theorem offences_deduction (htype : v.textMember? "type" = some type) (hn : m.node? type = some n)
    {elements : List Element} (hb : n.body = .deduction elements) :
    m.offences v = elements.flatMap (m.elementOffences type v) := by
  rw [offences, htype]
  simp only [hn, Option.map_some, hb]
  refine List.flatMap_congr fun e _ => ?_
  rw [elementOffences]
  cases e.property with
  | none => rfl
  | some property =>
    simp only
    split
    · rename_i hm
      rw [hm]
    · rename_i field hm
      rw [hm]

theorem reports_checkType (m : Model) (node property expected : String) (field : Json) :
    Reports (m.checkType node property expected field)
      (m.placeOffences node property expected field) := by
  unfold checkType placeOffences
  cases field.textMember? "type" with
  | none => rfl
  | some found =>
    by_cases hfits : found ∈ m.concreteTypes expected
    · simp only [hfits, if_true, Reports]
    · by_cases hnode : m.has found = true <;> simp [hfits, hnode, Reports]

theorem placeOffences_eq_nil_iff {node property expected : String} {field : Json} :
    m.placeOffences node property expected field = [] ↔ m.Fits expected field := by
  unfold placeOffences Fits
  cases field.textMember? "type" with
  | none => simp
  | some found =>
    by_cases hfits : found ∈ m.concreteTypes expected
    · simp [hfits]
    · by_cases hnode : m.has found = true <;> simp [hfits, hnode]

/-- **Writing a value reports its offences.** -/
theorem reports_stringify (m : Model) (separator : String) (v : Json) :
    Reports (m.stringify separator v) (m.offences v) := by
  induction hsize : sizeOf v using Nat.strong_induction_on generalizing v with
  | _ size ih =>
    subst hsize
    cases htype : v.textMember? "type" with
    | none =>
      rw [stringify, offences, htype]
      rfl
    | some type =>
      cases hn : m.node? type with
      | none =>
        rw [stringify, offences, htype]
        simp only [hn, Option.map_none]
        rfl
      | some n =>
        cases hb : n.body with
        | token pattern =>
          rw [stringify, offences, htype]
          simp only [hn, Option.map_some, hb]
          cases v.textMember? "value" <;> rfl
        | union members =>
          rw [stringify, offences, htype]
          simp only [hn, Option.map_some, hb]
          rfl
        | deduction elements =>
          rw [stringify_deduction htype hn hb, offences_deduction htype hn hb,
            ← List.append_nil (elements.flatMap _)]
          refine (Reports.mapM fun e _ => ?_).bind fun parts _ => rfl
          rw [elementTexts, elementOffences]
          cases e.property with
          | none => rfl
          | some property =>
            cases hfield : v.member? property with
            | none => simp only [hfield]; rfl
            | some field =>
              simp only [hfield]
              rw [← List.append_nil (m.offences field)]
              refine (reports_checkType m type property e.target field).bind fun _ _ => ?_
              exact (ih _ (Json.sizeOf_lt_of_member? hfield) field rfl).bind fun _ _ => rfl

theorem elementOffences_eq_nil_iff {e : Element} :
    m.elementOffences type v e = [] ↔ ∀ property, e.property = some property →
      ∃ field, v.member? property = some field ∧ m.Fits e.target field ∧ m.offences field = [] := by
  rw [elementOffences]
  cases e.property with
  | none => simp
  | some property =>
    cases hfield : v.member? property with
    | none => simp [hfield]
    | some field => simp [hfield, placeOffences_eq_nil_iff]

/-- **Well-typed values are those without offences.** -/
theorem offences_eq_nil_iff (m : Model) (v : Json) : m.offences v = [] ↔ m.IsWellTyped v := by
  constructor
  · intro h
    induction hsize : sizeOf v using Nat.strong_induction_on generalizing v with
    | _ size ih =>
      subst hsize
      cases htype : v.textMember? "type" with
      | none => simp [offences, htype] at h
      | some type =>
        cases hn : m.node? type with
        | none => simp [offences, htype, hn] at h
        | some n =>
          cases hb : n.body with
          | token pattern =>
            cases hvalue : v.textMember? "value" with
            | none => simp [offences, htype, hn, hb, hvalue] at h
            | some text => exact .token htype hn hb hvalue
          | union members => simp [offences, htype, hn, hb] at h
          | deduction elements =>
            rw [offences_deduction htype hn hb, List.flatMap_eq_nil_iff] at h
            refine .deduction htype hn hb (fun e he property hp => ?_)
              fun e he property field hp hfield => ?_
            · obtain ⟨field, hfield, hfits, -⟩ := elementOffences_eq_nil_iff.1 (h e he) property hp
              exact ⟨field, hfield, hfits⟩
            · obtain ⟨field', hfield', -, hnil⟩ := elementOffences_eq_nil_iff.1 (h e he) property hp
              cases hfield.symm.trans hfield'
              exact ih _ (Json.sizeOf_lt_of_member? hfield) field hnil rfl
  · intro h
    induction h with
    | token htype hn hb htext => simp [offences, htype, hn, hb, htext]
    | deduction htype hn hb hfits _ ih =>
      rw [offences_deduction htype hn hb, List.flatMap_eq_nil_iff]
      intro e he
      refine elementOffences_eq_nil_iff.2 fun property hp => ?_
      obtain ⟨field, hfield, hplace⟩ := hfits e he property hp
      exact ⟨field, hfield, hplace, ih e he property field hp hfield⟩

end Model

/-! ## Texts up to spaces -/

/-- A text without its spaces. -/
def withoutSpaces (s : String) : List Char := s.toList.filter (· ≠ ' ')

/-- **The same error**, or texts that are the same but for spaces. -/
def SameUpToSpaces : Except StringifyError String → Except StringifyError String → Prop
  | .ok s, .ok t => withoutSpaces s = withoutSpaces t
  | .error e, .error f => e = f
  | _, _ => False

theorem withoutSpaces_separator (o : StringifyOptions) : withoutSpaces o.separator = [] := by
  rw [StringifyOptions.separator]
  split
  · decide
  · decide

/-- Rows of texts that are the same item by item are the same as a whole. -/
theorem flatMap_flatten_eq {α β γ : Type} {f : β → List γ} {R S : α → List β → Prop} {xs : List α}
    {parts others : List (List β)} (h : List.Forall₂ R xs parts) (h' : List.Forall₂ S xs others)
    (hsame : ∀ x ∈ xs, ∀ ts us, R x ts → S x us → ts.flatMap f = us.flatMap f) :
    parts.flatten.flatMap f = others.flatten.flatMap f := by
  induction h generalizing others with
  | nil =>
    cases h'
    rfl
  | cons hx _ ih =>
    cases h' with
    | cons hx' hrest' =>
      obtain ⟨hhead, htail⟩ := List.forall_mem_cons.1 hsame
      rw [List.flatten_cons, List.flatten_cons, List.flatMap_append, List.flatMap_append,
        hhead _ _ hx hx', ih hrest' htail]

namespace Model

variable {m : Model}

/-- Whatever stands between the elements, a value has the same text but for spaces. -/
theorem withoutSpaces_stringify {o o' : StringifyOptions} {v : Json} {s s' : String}
    (h : m.stringify o.separator v = .ok s) (h' : m.stringify o'.separator v = .ok s') :
    withoutSpaces s = withoutSpaces s' := by
  induction hsize : sizeOf v using Nat.strong_induction_on generalizing v s s' with
  | _ size ih =>
    subst hsize
    cases (m.offences_eq_nil_iff v).1 ((m.reports_stringify _ v).isOk_iff.1 ⟨s, h⟩) with
    | token htype hn hb htext =>
      rw [stringify_token htype hn hb htext] at h h'
      cases h
      cases h'
      rfl
    | @deduction _ type n elements htype hn hb hfits _ =>
      rw [stringify_deduction htype hn hb] at h h'
      obtain ⟨parts, hparts, h⟩ := bind_ok h
      obtain ⟨parts', hparts', h'⟩ := bind_ok h'
      cases h
      cases h'
      rw [withoutSpaces, withoutSpaces, filter_intercalate (withoutSpaces_separator o),
        filter_intercalate (withoutSpaces_separator o')]
      refine flatMap_flatten_eq (mapM_eq_ok_iff.1 hparts) (mapM_eq_ok_iff.1 hparts')
        fun e he ts us hts hus => ?_
      rw [elementTexts] at hts hus
      cases hp : e.property with
      | none =>
        simp only [hp] at hts hus
        cases hts
        cases hus
        rfl
      | some property =>
        obtain ⟨field, hfield, -⟩ := hfits e he property hp
        simp only [hp, hfield] at hts hus
        obtain ⟨_, -, hts⟩ := bind_ok hts
        obtain ⟨_, -, hus⟩ := bind_ok hus
        obtain ⟨t, ht, hts⟩ := bind_ok hts
        obtain ⟨u, hu, hus⟩ := bind_ok hus
        cases hts
        cases hus
        rw [List.flatMap_singleton, List.flatMap_singleton]
        exact ih _ (Json.sizeOf_lt_of_member? hfield) ht hu rfl

/-- The choices about blanks change a text in its spaces, and an error in nothing. -/
theorem sameUpToSpaces_stringify (m : Model) (v : Json) (o o' : StringifyOptions) :
    SameUpToSpaces (m.stringify o.separator v) (m.stringify o'.separator v) := by
  have hreports := m.reports_stringify o.separator v
  have hreports' := m.reports_stringify o'.separator v
  cases h : m.stringify o.separator v with
  | ok s =>
    obtain ⟨s', h'⟩ := hreports'.isOk_iff.2 (hreports.isOk_iff.1 ⟨s, h⟩)
    rw [h']
    exact withoutSpaces_stringify h h'
  | error e =>
    rw [hreports'.eq_error_iff.2 (hreports.eq_error_iff.1 h)]
    rfl

end Model

/-- **Writing succeeds exactly on well-typed values**, whatever the choices about blanks: they
change a text in its spaces alone, and what is reported otherwise is the first offence in the order
of the elements. -/
theorem stringify_isOk_iff (m : Model) (v : Json) :
    (∀ o : StringifyOptions, (∃ s, m.stringify o.separator v = .ok s) ↔ m.IsWellTyped v) ∧
    (∀ o o' : StringifyOptions,
      SameUpToSpaces (m.stringify o.separator v) (m.stringify o'.separator v)) ∧
    ∀ (o : StringifyOptions) (e : StringifyError),
      m.stringify o.separator v = .error e ↔ (m.offences v).head? = some e :=
  ⟨fun o => (m.reports_stringify o.separator v).isOk_iff.trans (m.offences_eq_nil_iff v),
    m.sameUpToSpaces_stringify v, fun o _ => (m.reports_stringify o.separator v).eq_error_iff⟩

end GrammarKit
