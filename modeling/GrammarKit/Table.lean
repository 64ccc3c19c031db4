/-!
# Tables in insertion order

A table maps names to values and remembers the order in which the names came. Writing a name
again replaces its value and leaves it in its place.

* `Entries.find?`, `Entries.put`: look-up and writing on a list of entries.
* `Table`: a list of entries with distinct names.
* `Table.insert`, `Table.ofList`, `Table.get?`: building and reading tables.
* `map_fst_put`: writing keeps the names, or adds one at the end.
* `Table.ofList_entries`: a table is made of its entries.
-/

namespace GrammarKit

universe u v

namespace Entries

variable {α : Type u}

/-- The value of the first entry named `key`. -/
def find? (key : String) : List (String × α) → Option α
  | [] => none
  | (k, a) :: entries => if k = key then some a else find? key entries

/-- The entries with `key` set to `a`: in place if the name is there, else at the end. -/
def put (key : String) (a : α) : List (String × α) → List (String × α)
  | [] => [(key, a)]
  | (k, b) :: entries => if k = key then (key, a) :: entries else (k, b) :: put key a entries

theorem map_fst_put (key : String) (a : α) (entries : List (String × α)) :
    (put key a entries).map Prod.fst =
      if key ∈ entries.map Prod.fst then entries.map Prod.fst
      else entries.map Prod.fst ++ [key] := by
  induction entries with
  | nil => simp [put]
  | cons e entries ih =>
    obtain ⟨k, b⟩ := e
    by_cases hk : k = key
    · simp [put, hk]
    · have hk' : ¬ key = k := fun h => hk h.symm
      simp only [put, hk, if_false, List.map_cons, ih, List.mem_cons, hk', false_or]
      split <;> simp

theorem put_of_notMem {key : String} {entries : List (String × α)}
    (h : key ∉ entries.map Prod.fst) (a : α) : put key a entries = entries ++ [(key, a)] := by
  induction entries with
  | nil => rfl
  | cons e entries ih =>
    rw [List.map_cons, List.mem_cons, not_or] at h
    rw [put, if_neg (Ne.symm h.1), ih h.2, List.cons_append]

theorem nodup_put {key : String} {a : α} {entries : List (String × α)}
    (h : (entries.map Prod.fst).Nodup) : ((put key a entries).map Prod.fst).Nodup := by
  rw [map_fst_put]
  split
  · exact h
  · rename_i hk
    rw [List.nodup_append]
    refine ⟨h, by simp, ?_⟩
    rintro x hx y hy rfl
    rw [List.mem_singleton] at hy
    exact hk (hy ▸ hx)

@[simp] theorem find?_put_self (key : String) (a : α) (entries : List (String × α)) :
    find? key (put key a entries) = some a := by
  induction entries with
  | nil => simp [put, find?]
  | cons e entries ih =>
    obtain ⟨k, b⟩ := e
    by_cases hk : k = key <;> simp [put, find?, hk, ih]

theorem find?_put_of_ne {key other : String} (h : other ≠ key) (a : α)
    (entries : List (String × α)) : find? other (put key a entries) = find? other entries := by
  induction entries with
  | nil => simp [put, find?, Ne.symm h]
  | cons e entries ih =>
    obtain ⟨k, b⟩ := e
    by_cases hk : k = key
    · subst hk
      simp [put, find?, Ne.symm h]
    · simp [put, find?, hk, ih]

/-- Entries with the repeats folded: each name once, where it first stood, with its last value. -/
def fold (entries : List (String × α)) : List (String × α) :=
  entries.foldl (fun acc e => put e.1 e.2 acc) []

end Entries

/-- **A table**: entries with distinct names, in insertion order. -/
structure Table (α : Type u) where
  entries : List (String × α)
  nodup : (entries.map Prod.fst).Nodup

namespace Table

variable {α : Type u} {β : Type v}

@[ext] theorem ext {s t : Table α} (h : s.entries = t.entries) : s = t := by
  cases s; cases t; simp_all

instance [DecidableEq α] : DecidableEq (Table α) := fun s t =>
  if h : s.entries = t.entries then isTrue (ext h) else isFalse fun e => h (e ▸ rfl)

/-- The table without entries. -/
def empty : Table α := ⟨[], List.nodup_nil⟩

instance : EmptyCollection (Table α) := ⟨empty⟩

instance : Inhabited (Table α) := ⟨empty⟩

/-- The names, in order. -/
def keys (t : Table α) : List String := t.entries.map Prod.fst

/-- The number of entries. -/
def size (t : Table α) : Nat := t.entries.length

/-- The value under a name. -/
def get? (t : Table α) (key : String) : Option α := Entries.find? key t.entries

/-- Whether the table has an entry of that name. -/
def contains (t : Table α) (key : String) : Bool := (t.get? key).isSome

/-- The table with `key` set to `a`; a new name goes to the end. -/
def insert (t : Table α) (key : String) (a : α) : Table α :=
  ⟨Entries.put key a t.entries, Entries.nodup_put t.nodup⟩

/-- The table that results from writing the entries one after the other. -/
def ofList (entries : List (String × α)) : Table α :=
  entries.foldl (fun t e => t.insert e.1 e.2) empty

/-- The table with `f` applied to every value. -/
def map (f : String → α → β) (t : Table α) : Table β where
  entries := t.entries.map fun e => (e.1, f e.1 e.2)
  nodup := by simpa [List.map_map, Function.comp_def] using t.nodup

@[simp] theorem get?_insert_self (t : Table α) (key : String) (a : α) :
    (t.insert key a).get? key = some a := Entries.find?_put_self ..

theorem get?_insert_of_ne (t : Table α) {key other : String} (h : other ≠ key) (a : α) :
    (t.insert key a).get? other = t.get? other := Entries.find?_put_of_ne h ..

/-- **A table is made of its entries.** -/
theorem ofList_entries (t : Table α) : ofList t.entries = t := by
  have hfoldl (entries : List (String × α)) (s : Table α)
      (h : ((s.entries ++ entries).map Prod.fst).Nodup) :
      (entries.foldl (fun t e => t.insert e.1 e.2) s).entries = s.entries ++ entries := by
    induction entries generalizing s with
    | nil => exact (List.append_nil _).symm
    | cons e entries ih =>
      have hnew : e.1 ∉ s.entries.map Prod.fst := by
        rw [List.map_append, List.map_cons] at h
        exact fun hmem => (List.nodup_append.1 h).2.2 _ hmem _ List.mem_cons_self rfl
      have hinsert : (s.insert e.1 e.2).entries = s.entries ++ [e] :=
        Entries.put_of_notMem hnew e.2
      rw [List.foldl_cons, ih _ (by rw [hinsert, List.append_assoc]; exact h), hinsert,
        List.append_assoc]
      rfl
  exact ext (hfoldl t.entries .empty t.nodup)

end Table

end GrammarKit
