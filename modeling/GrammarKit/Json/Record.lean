import GrammarKit.Json

/-!
# Records as structured values

A record is written as an object with a member per field, or as an array of its fields in order.
Unknown members are passed over; a field given twice and an array that is too long are refused.

* `Json.record?`: the given fields of a record.
* `Json.soleText?`: a text that an object has once.
* `Json.texts?`, `Json.textTable?`, `Json.flag?`: common types of fields.
-/

namespace GrammarKit.Json

/-- The members of an object that are among `fields`, each at most once. -/
def knownMembers? (fields : List String) :
    List (String × Json) → Option (List (String × Json))
  | [] => some []
  | (key, j) :: members => do
    let rest ← knownMembers? fields members
    if key ∈ fields then
      if (Entries.find? key rest).isSome then none else some ((key, j) :: rest)
    else some rest

/-- The given fields of a record, from an object or from an array in field order. -/
def record? (fields : List String) : Json → Option (List (String × Json))
  | object members => knownMembers? fields members
  | array items => if items.length ≤ fields.length then some (fields.zip items) else none
  | _ => none

/-- The field `key` read by `read`, or `default` if it is not given. -/
def fieldOr {α : Type} (record : List (String × Json)) (key : String) (default : α)
    (read : Json → Option α) : Option α :=
  match Entries.find? key record with
  | some j => read j
  | none => some default

/-- The field `key` read by `read`; it has to be given. -/
def field? {α : Type} (record : List (String × Json)) (key : String)
    (read : Json → Option α) : Option α := (Entries.find? key record).bind read

/-- The text of the member `key`, which an object has to have once. -/
def soleText? (members : List (String × Json)) (key : String) : Option String := do
  let fields ← knownMembers? [key] members
  field? fields key text?

/-- A truth value. -/
def flag? : Json → Option Bool
  | bool b => some b
  | _ => none

/-- A string or nothing. -/
def optionalText? : Json → Option (Option String)
  | null => some none
  | string s => some (some s)
  | _ => none

/-- A list of values read by `read`. -/
def list? {α : Type} (read : Json → Option α) : Json → Option (List α)
  | array items => items.mapM read
  | _ => none

/-- A list of strings. -/
def texts? : Json → Option (List String) := list? text?

/-- A table of values read by `read`; a repeated name keeps its first place and last value. -/
def table? {α : Type} (read : Json → Option α) : Json → Option (Table α)
  | object members =>
    (members.mapM fun e : String × Json => (read e.2).map fun a => (e.1, a)).map Table.ofList
  | _ => none

end GrammarKit.Json
