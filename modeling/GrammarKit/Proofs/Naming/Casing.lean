import GrammarKit.Naming.Casing
import GrammarKit.Proofs.Code.Identifier

/-!
# Cases of plain names

Names of nodes and properties are ASCII, and so are their cases, which need no tables.

* `pascalCase_ascii`, `snakeCase_ascii`: the cases of ASCII names.
* **`isAlphanum_of_mem_pascalCase`**: words that are joined leave letters and digits.
* **`isIdentifierPart_of_mem_snakeCase`**: a name in lower case stays a name.
-/

namespace GrammarKit

open Text

namespace Text

theorem isUpper_ascii {c : Char} (h : c.toNat < 128) : isUpper c = c.isUpper := by
  simp only [isUpper, isOf, List.any_cons, List.any_nil, Bool.or_false, Category.has,
    Category.assignedBlocks]
  rw [← member_low h, ← member_low h otherUpper, LowTables.upperLetter lowTables,
    LowTables.otherUpper lowTables]
  simp [member, Block.contains, Nat.mod_one, isUpper_eq_decide]

theorem isLower_ascii {c : Char} (h : c.toNat < 128) : isLower c = c.isLower := by
  simp only [isLower, isOf, List.any_cons, List.any_nil, Bool.or_false, Category.has,
    Category.assignedBlocks]
  rw [← member_low h, ← member_low h otherLower, LowTables.lowerLetter lowTables,
    LowTables.otherLower lowTables]
  simp [member, Block.contains, Nat.mod_one, isLower_eq_decide]

end Text

/-- Whether all characters of a name are ASCII. -/
def isAscii (s : List Char) : Bool := s.all fun c => c.toNat < 128

/-- `pascalChars` with the letter case of ASCII. -/
def plainPascal : Bool → List Char → List Char
  | _, [] => []
  | start, c :: s =>
    if separatesWords c then plainPascal true s
    else (if start then c.toUpper else c) :: plainPascal false s

/-- What `snakeOnto` writes with the letter case of ASCII. -/
def plainSnakeAfter : Char → List Char → List Char
  | _, [] => []
  | before, c :: s =>
    (if c.isUpper && (before.isLower || before.isDigit ||
        (before.isUpper && s.head?.any Char.isLower)) then ['_'] else []) ++
      c.toLower :: plainSnakeAfter c s

/-- `snakeChars` with the letter case of ASCII. -/
def plainSnake : List Char → List Char
  | [] => []
  | c :: s => c.toLower :: plainSnakeAfter c s

/-- `pascalCase` with the letter case of ASCII. -/
def plainPascalCase (name : String) : String := String.ofList (plainPascal true name.toList)

/-- `snakeCase` with the letter case of ASCII. -/
def plainSnakeCase (name : String) : String := String.ofList (plainSnake name.toList)

theorem isAscii_cons {c : Char} {s : List Char} :
    isAscii (c :: s) = true ↔ c.toNat < 128 ∧ isAscii s = true := by
  simp [isAscii]

theorem pascalChars_ascii {s : List Char} (h : isAscii s = true) (start : Bool) :
    pascalChars start s = plainPascal start s := by
  induction s generalizing start with
  | nil => rfl
  | cons c s ih =>
    obtain ⟨hc, hs⟩ := isAscii_cons.1 h
    rw [pascalChars, plainPascal, ih hs, ih hs, toUpper_ascii hc]
    by_cases hstart : start = true <;> simp [hstart]

theorem startsWord_ascii {before c : Char} {s : List Char} (hbefore : before.toNat < 128)
    (hc : c.toNat < 128) (hs : isAscii s = true) :
    startsWord before c s.head? = (c.isUpper && (before.isLower || before.isDigit ||
      (before.isUpper && s.head?.any Char.isLower))) := by
  have hafter : s.head?.any isLower = s.head?.any Char.isLower := by
    cases s with
    | nil => rw [List.head?_nil, Option.any_none, Option.any_none]
    | cons d s =>
      rw [List.head?_cons, Option.any_some, Option.any_some, isLower_ascii (isAscii_cons.1 hs).1]
  rw [startsWord, isUpper_ascii hc, isLower_ascii hbefore, isUpper_ascii hbefore, hafter]

/-- What stands in front of a new word is no underscore. -/
theorem toLower_ne_underscore {before c : Char} {after : Option Char}
    (h : startsWord before c after = true) (hbefore : before.toNat < 128) :
    before.toLower ≠ '_' := by
  have hletter : before.isUpper = true ∨ before.isLower = true ∨ before.isDigit = true := by
    simp only [startsWord, isUpper_ascii hbefore, isLower_ascii hbefore, Bool.and_eq_true,
      Bool.or_eq_true] at h
    obtain ⟨-, (h | h) | ⟨h, -⟩⟩ := h
    · exact .inr (.inl h)
    · exact .inr (.inr h)
    · exact .inl h
  exact forall_ascii (P := fun d => d.isUpper = true ∨ d.isLower = true ∨ d.isDigit = true →
    d.toLower ≠ '_') (by decide +kernel) hbefore hletter

theorem snakeOnto_ascii {s : List Char} (h : isAscii s = true) {before : Char}
    (hbefore : before.toNat < 128) {written : List Char}
    (hlast : written.getLast? = some before.toLower) :
    snakeOnto written before s = written ++ plainSnakeAfter before s := by
  induction s generalizing before written with
  | nil => rw [snakeOnto, plainSnakeAfter, List.append_nil]
  | cons c s ih =>
    obtain ⟨hc, hs⟩ := isAscii_cons.1 h
    have hgap : (startsWord before c s.head? && decide (written.getLast? ≠ some '_')) =
        startsWord before c s.head? := by
      cases hstarts : startsWord before c s.head? with
      | false => rfl
      | true => simp [hlast, toLower_ne_underscore hstarts hbefore]
    rw [snakeOnto, hgap, ih hs hc (by simp [toLower_ascii hc]), plainSnakeAfter,
      startsWord_ascii hbefore hc hs, toLower_ascii hc]
    simp only [List.append_assoc, List.singleton_append]

/-- **The words of an ASCII name joined.** -/
theorem pascalCase_ascii {name : String} (h : isAscii name.toList = true) :
    pascalCase name = plainPascalCase name := by
  rw [pascalCase, pascalChars_ascii h, plainPascalCase]

/-- **An ASCII name in lower case.** -/
theorem snakeCase_ascii {name : String} (h : isAscii name.toList = true) :
    snakeCase name = plainSnakeCase name := by
  rw [snakeCase, plainSnakeCase]
  cases hname : name.toList with
  | nil => rfl
  | cons c s =>
    rw [hname] at h
    obtain ⟨hc, hs⟩ := isAscii_cons.1 h
    rw [snakeChars, plainSnake, toLower_ascii hc, snakeOnto_ascii hs hc rfl, List.singleton_append]

/-! ## Names of nodes -/

theorem isIdentifierPart_of_mem {name : String} (h : isIdentifier name = true) {c : Char}
    (hc : c ∈ name.toList) : isIdentifierPart c = true := by
  unfold isIdentifier at h
  split at h
  · cases h
  · rename_i d s hname
    rw [Bool.and_eq_true] at h
    exact Code.all_word h.1 h.2 c (hname ▸ hc)

theorem isAscii_of_isIdentifier {name : String} (h : isIdentifier name = true) :
    isAscii name.toList = true := by
  rw [isAscii, List.all_eq_true]
  intro c hc
  have hbounds := bounds_of_isIdentifierPart (isIdentifierPart_of_mem h hc)
  simp only [decide_eq_true_eq]
  omega

theorem isAlphanum_toUpper {c : Char} (h : c.isAlphanum = true) : c.toUpper.isAlphanum = true := by
  have hbounds := bounds_of_isIdentifierPart (c := c) (by simp [isIdentifierPart, h])
  exact forall_ascii (P := fun c => c.isAlphanum = true → c.toUpper.isAlphanum = true)
    (by decide +kernel) (by omega) h

theorem isAlphanum_of_mem_plainPascal {s : List Char} (h : ∀ c ∈ s, isIdentifierPart c = true)
    (start : Bool) : ∀ c ∈ plainPascal start s, c.isAlphanum = true := by
  induction s generalizing start with
  | nil => simp [plainPascal]
  | cons c s ih =>
    rw [List.forall_mem_cons] at h
    unfold plainPascal
    split
    · exact ih h.2 true
    · rename_i hword
      have hc : c.isAlphanum = true := by
        have hunderscore : c ≠ '_' := by
          rintro rfl
          exact hword rfl
        simpa [isIdentifierPart, hunderscore] using h.1
      rw [List.forall_mem_cons]
      refine ⟨?_, ih h.2 false⟩
      by_cases hstart : start = true
      · rw [if_pos hstart]
        exact isAlphanum_toUpper hc
      · rw [if_neg hstart]
        exact hc

/-- **Words that are joined leave letters and digits.** -/
theorem isAlphanum_of_mem_pascalCase {name : String} (h : isIdentifier name = true) :
    ∀ c ∈ (pascalCase name).toList, c.isAlphanum = true := by
  rw [pascalCase_ascii (isAscii_of_isIdentifier h), plainPascalCase, String.toList_ofList]
  exact isAlphanum_of_mem_plainPascal (fun c => isIdentifierPart_of_mem h) true

/-- Words that are joined start in upper case. -/
theorem isLower_of_head?_plainPascal {s : List Char} (h : ∀ c ∈ s, isIdentifierPart c = true) :
    ∀ c ∈ (plainPascal true s).head?, c.isLower = false := by
  induction s with
  | nil => simp [plainPascal]
  | cons c s ih =>
    rw [List.forall_mem_cons] at h
    unfold plainPascal
    split
    · exact ih h.2
    · have hbounds := bounds_of_isIdentifierPart h.1
      rw [List.head?_cons, if_pos rfl]
      rintro d ⟨rfl⟩
      exact forall_ascii (P := fun c => c.toUpper.isLower = false) (by decide +kernel) (by omega)

theorem isLower_of_head?_pascalCase {name : String} (h : isIdentifier name = true) :
    ∀ c ∈ (pascalCase name).toList.head?, c.isLower = false := by
  rw [pascalCase_ascii (isAscii_of_isIdentifier h), plainPascalCase, String.toList_ofList]
  exact isLower_of_head?_plainPascal fun c => isIdentifierPart_of_mem h

theorem isIdentifierPart_toLower {c : Char} (h : isIdentifierPart c = true) :
    isIdentifierPart c.toLower = true := by
  have hbounds := bounds_of_isIdentifierPart h
  exact forall_ascii (P := fun c => isIdentifierPart c = true → isIdentifierPart c.toLower = true)
    (by decide +kernel) (by omega) h

theorem isIdentifierPart_of_mem_plainSnakeAfter {s : List Char}
    (h : ∀ c ∈ s, isIdentifierPart c = true) (before : Char) :
    ∀ c ∈ plainSnakeAfter before s, isIdentifierPart c = true := by
  induction s generalizing before with
  | nil => simp [plainSnakeAfter]
  | cons c s ih =>
    rw [List.forall_mem_cons] at h
    rw [plainSnakeAfter, List.forall_mem_append, List.forall_mem_cons]
    refine ⟨?_, isIdentifierPart_toLower h.1, ih h.2 c⟩
    split
    · exact List.forall_mem_singleton.2 (by decide)
    · exact List.forall_mem_nil _

/-- **A name in lower case stays a name.** -/
theorem isIdentifierPart_of_mem_snakeCase {name : String} (h : isIdentifier name = true) :
    ∀ c ∈ (snakeCase name).toList, isIdentifierPart c = true := by
  have hmem : ∀ c ∈ name.toList, isIdentifierPart c = true := fun c => isIdentifierPart_of_mem h
  rw [snakeCase_ascii (isAscii_of_isIdentifier h), plainSnakeCase, String.toList_ofList]
  cases hname : name.toList with
  | nil => simp [plainSnake]
  | cons c s =>
    rw [hname, List.forall_mem_cons] at hmem
    exact List.forall_mem_cons.2
      ⟨isIdentifierPart_toLower hmem.1, isIdentifierPart_of_mem_plainSnakeAfter hmem.2 c⟩

theorem toList_snakeCase_ne_nil {name : String} (h : isIdentifier name = true) :
    (snakeCase name).toList ≠ [] := by
  rw [snakeCase_ascii (isAscii_of_isIdentifier h), plainSnakeCase, String.toList_ofList]
  unfold isIdentifier at h
  split at h
  · cases h
  · rename_i c s hname
    rw [hname]
    exact List.cons_ne_nil _ _

end GrammarKit
