import GrammarKit.Proofs.Naming.Casing

/-!
# Underscores between words

A name in lower case consists of the characters of the name, in lower case, and of underscores that
are put between words. So it tells the name up to case and underscores, and putting it in lower case
again changes nothing.

* `Separates`: a text with underscores put in, each of them between two letters or digits.
* `separates_plainSnake`: a name in lower case is such a text.
* `plainSnake_eq_self`: a name without capitals stays as it is.
* **`snakeCase_separates`**: all of this for identifiers.
-/

namespace GrammarKit

open Text

/-- **`t` is `s` with underscores put in**, each of them between two letters or digits; `before`
stands in front of `s`, if anything does. -/
inductive Separates : (before : Option Char) → (s t : List Char) → Prop
  | nil {before : Option Char} : Separates before [] []
  | keep {before : Option Char} {c : Char} {s t : List Char} :
      Separates (some c) s t → Separates before (c :: s) (c :: t)
  | insert {before c : Char} {s t : List Char} : before.isAlphanum = true → c.isAlphanum = true →
      Separates (some c) s t → Separates (some before) (c :: s) ('_' :: c :: t)

/-- The characters other than underscores. -/
def dropUnderscores (s : List Char) : List Char := s.filter (· != '_')

namespace Separates

variable {before : Option Char} {s t : List Char} (h : Separates before s t)

include h

theorem dropUnderscores_eq : dropUnderscores t = dropUnderscores s := by
  induction h with
  | nil => rfl
  | @keep _ c _ _ _ ih =>
    simp only [dropUnderscores] at ih
    simp only [dropUnderscores, List.filter_cons, ih]
  | insert _ _ _ ih =>
    simp only [dropUnderscores] at ih
    simp [dropUnderscores, List.filter_cons, ih]

theorem forall_mem {P : Char → Prop} (hunderscore : P '_') (hs : ∀ c ∈ s, P c) :
    ∀ c ∈ t, P c := by
  induction h with
  | nil => exact hs
  | keep _ ih =>
    obtain ⟨hc, hs⟩ := List.forall_mem_cons.1 hs
    exact List.forall_mem_cons.2 ⟨hc, ih hs⟩
  | insert _ _ _ ih =>
    obtain ⟨hc, hs⟩ := List.forall_mem_cons.1 hs
    exact List.forall_mem_cons.2 ⟨hunderscore, List.forall_mem_cons.2 ⟨hc, ih hs⟩⟩

/-- Nothing is put in behind the last character. -/
theorem getLast?_eq : t.getLast? = s.getLast? := by
  induction h with
  | nil => rfl
  | keep _ ih => rw [List.getLast?_cons, List.getLast?_cons, ih]
  | insert _ _ _ ih => rw [List.getLast?_cons_cons, List.getLast?_cons, List.getLast?_cons, ih]

omit h in
/-- Nothing is put in where nothing stands in front. -/
theorem head?_eq (h : Separates none s t) : t.head? = s.head? := by
  cases h with
  | nil | keep => rfl

/-- No two underscores are put in side by side. -/
theorem not_infix (hs : '_' ∉ s) : ¬ ['_', '_'] <:+: t := by
  have hcons {c : Char} {u : List Char} (hc : c ≠ '_') (hu : ¬ ['_', '_'] <:+: u) :
      ¬ ['_', '_'] <:+: c :: u := by
    rw [List.infix_cons_iff, List.cons_prefix_cons]
    rintro (⟨rfl, -⟩ | hinfix)
    · exact hc rfl
    · exact hu hinfix
  induction h with
  | nil => simp
  | keep _ ih =>
    rw [List.mem_cons, not_or] at hs
    exact hcons (Ne.symm hs.1) (ih hs.2)
  | insert _ _ _ ih =>
    rw [List.mem_cons, not_or] at hs
    rw [List.infix_cons_iff, List.cons_prefix_cons, List.cons_prefix_cons]
    rintro (⟨-, hc, -⟩ | hinfix)
    · exact hs.1 hc
    · exact hcons (Ne.symm hs.1) (ih hs.2) hinfix

end Separates

/-! ## Names in lower case -/

theorem isAlphanum_eq (c : Char) : c.isAlphanum = (c.isUpper || c.isLower || c.isDigit) := rfl

theorem isAlphanum_toLower {c : Char} (h : c.isAlphanum = true) : c.toLower.isAlphanum = true := by
  have hbounds := bounds_of_isIdentifierPart (c := c) (by simp [isIdentifierPart, h])
  exact forall_ascii (P := fun c => c.isAlphanum = true → c.toLower.isAlphanum = true)
    (by decide +kernel) (by omega) h

/-- A word starts between two letters or digits. -/
theorem separates_plainSnakeAfter (before : Char) (s : List Char) :
    Separates (some before.toLower) (s.map Char.toLower) (plainSnakeAfter before s) := by
  induction s generalizing before with
  | nil => exact .nil
  | cons c s ih =>
    rw [plainSnakeAfter, List.map_cons]
    split
    · rename_i hword
      simp only [Bool.and_eq_true, Bool.or_eq_true] at hword
      obtain ⟨hc, hbefore⟩ := hword
      refine .insert (isAlphanum_toLower ?_) (isAlphanum_toLower ?_) (ih c)
      · rcases hbefore with (h | h) | ⟨h, -⟩ <;> simp [isAlphanum_eq, h]
      · simp [isAlphanum_eq, hc]
    · exact .keep (ih c)

/-- Only an underscore becomes one. -/
theorem toLower_eq_underscore {c : Char} (h : isIdentifierPart c = true) :
    c.toLower = '_' ↔ c = '_' := by
  have hbounds := bounds_of_isIdentifierPart h
  exact forall_ascii (P := fun c => isIdentifierPart c = true → (c.toLower = '_' ↔ c = '_'))
    (by decide +kernel) (by omega) h

theorem dropUnderscores_map_toLower {s : List Char} (h : ∀ c ∈ s, isIdentifierPart c = true) :
    dropUnderscores (s.map Char.toLower) = (dropUnderscores s).map Char.toLower := by
  rw [dropUnderscores, dropUnderscores, List.filter_map]
  refine congrArg (List.map Char.toLower) (List.filter_congr fun c hc => ?_)
  rw [Function.comp_apply, Bool.eq_iff_iff, bne_iff_ne, bne_iff_ne, Ne,
    toLower_eq_underscore (h c hc)]

/-- **A name in lower case** has underscores put between letters and digits. -/
theorem separates_plainSnake (s : List Char) :
    Separates none (s.map Char.toLower) (plainSnake s) := by
  cases s with
  | nil => exact .nil
  | cons c s => exact .keep (separates_plainSnakeAfter c s)

/-- The characters of names in lower case. -/
def isSnakePart (c : Char) : Bool := c.isLower || c.isDigit || c == '_'

theorem isSnakePart_toLower {c : Char} (h : isIdentifierPart c = true) :
    isSnakePart c.toLower = true := by
  have hbounds := bounds_of_isIdentifierPart h
  exact forall_ascii (P := fun c => isIdentifierPart c = true → isSnakePart c.toLower = true)
    (by decide +kernel) (by omega) h

theorem bounds_of_isSnakePart {c : Char} (h : isSnakePart c = true) :
    c.toNat < 128 ∧ c.isUpper = false := by
  simp only [isSnakePart, Bool.or_eq_true, beq_iff_eq] at h
  rcases h with (h | h) | rfl
  · rw [isLower_eq_decide, Bool.and_eq_true, decide_eq_true_eq, decide_eq_true_eq] at h
    exact ⟨by omega, by rw [isUpper_eq_decide, decide_eq_false_iff_not]; omega⟩
  · have hbounds := bounds_of_isDigit h
    exact ⟨by omega, by rw [isUpper_eq_decide, decide_eq_false_iff_not]; omega⟩
  · decide

theorem toLower_eq_self {c : Char} (h : c.isUpper = false) : c.toLower = c := by
  refine dif_neg fun hc => ?_
  have hupper : c.isUpper = true := decide_eq_true hc
  rw [h] at hupper
  cases hupper

theorem plainSnakeAfter_eq_self {s : List Char} (h : ∀ c ∈ s, c.isUpper = false) (before : Char) :
    plainSnakeAfter before s = s := by
  induction s generalizing before with
  | nil => rfl
  | cons c s ih =>
    obtain ⟨hc, hs⟩ := List.forall_mem_cons.1 h
    rw [plainSnakeAfter, hc, ih hs, toLower_eq_self hc]
    rfl

/-- **A name without capitals** stays as it is. -/
theorem plainSnake_eq_self {s : List Char} (h : ∀ c ∈ s, c.isUpper = false) : plainSnake s = s := by
  cases s with
  | nil => rfl
  | cons c s =>
    obtain ⟨hc, hs⟩ := List.forall_mem_cons.1 h
    rw [plainSnake, toLower_eq_self hc, plainSnakeAfter_eq_self hs]

/-! ## Identifiers -/

section Identifiers

variable {name : String} (h : isIdentifier name = true)

include h

/-- What a name in lower case says of the name. -/
theorem separates_snakeCase :
    Separates none (name.toList.map Char.toLower) (snakeCase name).toList := by
  rw [snakeCase_ascii (isAscii_of_isIdentifier h), plainSnakeCase, String.toList_ofList]
  exact separates_plainSnake name.toList

theorem isSnakePart_of_mem_snakeCase : ∀ c ∈ (snakeCase name).toList, isSnakePart c = true := by
  refine (separates_snakeCase h).forall_mem rfl fun c hc => ?_
  obtain ⟨d, hd, rfl⟩ := List.mem_map.1 hc
  exact isSnakePart_toLower (isIdentifierPart_of_mem h hd)

theorem snakeCase_snakeCase : snakeCase (snakeCase name) = snakeCase name := by
  have hparts (c : Char) (hc : c ∈ (snakeCase name).toList) :=
    bounds_of_isSnakePart (isSnakePart_of_mem_snakeCase h c hc)
  have hascii : isAscii (snakeCase name).toList = true := by
    rw [isAscii, List.all_eq_true]
    exact fun c hc => decide_eq_true (hparts c hc).1
  rw [snakeCase_ascii hascii, plainSnakeCase, plainSnake_eq_self fun c hc => (hparts c hc).2,
    String.ofList_toList]

theorem dropUnderscores_snakeCase :
    dropUnderscores (snakeCase name).toList = (dropUnderscores name.toList).map Char.toLower := by
  rw [(separates_snakeCase h).dropUnderscores_eq,
    dropUnderscores_map_toLower fun _ => isIdentifierPart_of_mem h]

theorem underscore_notMem_map_toLower (hname : '_' ∉ name.toList) :
    '_' ∉ name.toList.map Char.toLower := by
  intro hmem
  obtain ⟨c, hc, hlower⟩ := List.mem_map.1 hmem
  exact hname ((toLower_eq_underscore (isIdentifierPart_of_mem h hc)).1 hlower ▸ hc)

/-- **An identifier in lower case** has letters in lower case, digits and underscores only. Without
underscores it is the identifier in lower case without underscores, and those that the identifier
does not have stand between two letters or digits, so none of them stands at an end or beside
another one. It stays as it is when it is put in lower case again, and two identifiers that agree in
lower case are equal up to case and underscores. -/
theorem snakeCase_separates :
    (∀ c ∈ (snakeCase name).toList, isSnakePart c = true) ∧
    dropUnderscores (snakeCase name).toList = (dropUnderscores name.toList).map Char.toLower ∧
    Separates none (name.toList.map Char.toLower) (snakeCase name).toList ∧
    ('_' ∉ name.toList →
      (snakeCase name).toList.head? ≠ some '_' ∧ (snakeCase name).toList.getLast? ≠ some '_' ∧
        ¬ ['_', '_'] <:+: (snakeCase name).toList) ∧
    snakeCase (snakeCase name) = snakeCase name ∧
    ∀ other, isIdentifier other = true → snakeCase other = snakeCase name →
      (dropUnderscores other.toList).map Char.toLower =
        (dropUnderscores name.toList).map Char.toLower := by
  have hseparates := separates_snakeCase h
  refine ⟨isSnakePart_of_mem_snakeCase h, dropUnderscores_snakeCase h, hseparates, fun hname => ?_,
    snakeCase_snakeCase h, fun other hother heq => ?_⟩
  · have hlower := underscore_notMem_map_toLower h hname
    rw [hseparates.head?_eq, hseparates.getLast?_eq]
    exact ⟨fun hhead => hlower (List.mem_of_head? hhead),
      fun hlast => hlower (List.mem_of_getLast? hlast), hseparates.not_infix hlower⟩
  · rw [← dropUnderscores_snakeCase hother, ← dropUnderscores_snakeCase h, heq]

end Identifiers

/-- Capitals in a row, and a capital behind a digit. -/
theorem snakeCase_separates_request : isIdentifier "HTTPRequest2Body" = true ∧
    snakeCase "HTTPRequest2Body" = "http_request2_body" ∧
    dropUnderscores "http_request2_body".toList =
      (dropUnderscores "HTTPRequest2Body".toList).map Char.toLower ∧
    Separates none "httprequest2body".toList "http_request2_body".toList ∧
    snakeCase "http_request2_body" = "http_request2_body" := by
  have hname : isIdentifier "HTTPRequest2Body" = true := by decide
  have hcase : snakeCase "HTTPRequest2Body" = "http_request2_body" := by
    rw [snakeCase_ascii (by decide)]
    decide +kernel
  have hlower : "HTTPRequest2Body".toList.map Char.toLower = "httprequest2body".toList := by
    decide +kernel
  obtain ⟨-, hdrop, hseparates, -, hagain, -⟩ := snakeCase_separates hname
  rw [hcase] at hdrop hseparates hagain
  rw [hlower] at hseparates
  exact ⟨hname, hcase, hdrop, hseparates, hagain⟩

end GrammarKit
