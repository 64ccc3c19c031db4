import GrammarKit.Table

/-!
# Structured values

Values of the JSON data format. Documents, configurations and syntax trees are such values.
Objects keep the order of their members; a member name may come twice, and `Json.folded` keeps
the first place and the last value of such a name.

* `Json`: the values.
* `Json.member?`, `Json.text?`: reading an object's members and a string.
-/

namespace GrammarKit

/-- A number: a whole number, or one with a fraction or an exponent, kept as it was written. -/
inductive Json.Number where
  | whole (n : Int)
  | decimal (text : String)
deriving Repr, DecidableEq

/-- **A structured value.** -/
inductive Json where
  | null
  | bool (b : Bool)
  | number (n : Json.Number)
  | string (s : String)
  | array (items : List Json)
  | object (members : List (String × Json))
deriving Repr, BEq, Inhabited

namespace Json

/-- The text of a string value. -/
def text? : Json → Option String
  | string s => some s
  | _ => none

/-- The value of the member `key`; values other than objects have no members. -/
def member? (key : String) : Json → Option Json
  | object members => Entries.find? key members
  | _ => none

/-- The string under the member `key`. -/
def textMember? (key : String) (j : Json) : Option String := (j.member? key).bind text?

/-- Whole numbers as values. -/
def ofNat (n : Nat) : Json := number (.whole n)

/-- A list of strings as a value. -/
def ofTexts (l : List String) : Json := array (l.map string)

/-- A string, or `null`. -/
def ofText? : Option String → Json
  | some s => string s
  | none => null

mutual

/-- The value with repeated members folded, at every depth. -/
def folded : Json → Json
  | array items => array (foldedItems items)
  | object members => object (Entries.fold (foldedMembers members))
  | j => j

/-- `folded` on every item. -/
def foldedItems : List Json → List Json
  | [] => []
  | j :: items => j.folded :: foldedItems items

/-- `folded` on the value of every member. -/
def foldedMembers : List (String × Json) → List (String × Json)
  | [] => []
  | (key, j) :: members => (key, j.folded) :: foldedMembers members

end

theorem sizeOf_lt_of_find? {key : String} {j : Json} {members : List (String × Json)}
    (h : Entries.find? key members = some j) : sizeOf j < sizeOf members := by
  induction members with
  | nil => simp [Entries.find?] at h
  | cons e members ih =>
    obtain ⟨k, a⟩ := e
    rw [Entries.find?] at h
    split at h
    · cases h
      simp only [List.cons.sizeOf_spec, Prod.mk.sizeOf_spec]
      omega
    · have := ih h
      simp only [List.cons.sizeOf_spec]
      omega

/-- A member is smaller than the value that holds it. -/
theorem sizeOf_lt_of_member? {key : String} {j k : Json} (h : j.member? key = some k) :
    sizeOf k < sizeOf j := by
  cases j with
  | object members =>
    have := sizeOf_lt_of_find? h
    simp only [object.sizeOf_spec]
    omega
  | _ => simp [member?] at h

end Json

end GrammarKit
