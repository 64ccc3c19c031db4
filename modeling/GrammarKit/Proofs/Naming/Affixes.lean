import GrammarKit.Proofs.Code.TypeName
import GrammarKit.Proofs.Naming.Casing
import GrammarKit.Proofs.Naming.Resolution

/-!
# Affixes of generated names

A generated name is checked as code, where blanks and comments may stand around it, but it is
written as a single token. The cases of a node's name are words, so whether a name with an affix
is a token hangs on the affix alone.

* `Code.isWordFront`, `Code.isWordBack`: texts that leave a word a word.
* **`identToken?_snakeCase_iff`**, **`identToken?_pascalCase_iff`**: identifiers that are tokens.
* `NamedNode.IsNameable.identToken?_type_iff`, `NamedNode.IsNameable.identToken?_function_iff`,
  `NamedNode.IsNameable.identToken?_variant`, `identToken?_of_snakeIdent?`: the names for a node.
-/

namespace GrammarKit

open Text

/-! ## Words with affixes -/

namespace Code

/-- Whether characters are none, or start a word. -/
def isFrontOfWord : List Char → Bool
  | [] => true
  | c :: s => startsIdent c && s.all isNamePart

/-- **Whether a text in front of a word leaves it a word**, which may be raw. -/
def isWordFront (s : String) : Bool :=
  match s.toList with
  | 'r' :: '#' :: t => isFrontOfWord t
  | t => isFrontOfWord t

/-- A text that does not start like a word leaves no words. -/
theorem isWordFront_eq_false {affix : String} {c : Char} {s : List Char}
    (h : affix.toList = c :: s) (hc : startsIdent c = false) : isWordFront affix = false := by
  rw [isWordFront.eq_def]
  split
  · rename_i t ht
    obtain ⟨rfl, -⟩ := List.cons.inj (h.symm.trans ht)
    rw [startsIdent, isNameStart_of_isAlpha (by decide), Bool.or_true] at hc
    cases hc
  · rw [h, isFrontOfWord, hc, Bool.false_and]

/-- **Whether a text behind a word leaves it a word.** -/
def isWordBack (s : String) : Bool := s.toList.all isNamePart

variable {c : Char} {s w : List Char}

theorem afterIdent?_cons_iff :
    afterIdent? (c :: s) = some [] ↔ startsIdent c = true ∧ s.all isNamePart = true := by
  rw [afterIdent?]
  split <;> simp [*, List.dropWhile_eq_nil_iff]

theorem startsIdent_of_afterIdent? {rest : List Char} (h : afterIdent? (c :: s) = some rest) :
    startsIdent c = true := by
  rw [afterIdent?] at h
  split at h
  · assumption
  · cases h

theorem afterAnyIdent?_eq_afterIdent? (h : ∀ t, s ≠ 'r' :: '#' :: t) :
    afterAnyIdent? s = afterIdent? s := by
  rw [afterAnyIdent?.eq_def]
  split
  · rename_i t
    exact absurd rfl (h t)
  · rfl

theorem afterAnyIdent?_raw_iff {rest : List Char}
    (h : afterAnyIdent? ('r' :: '#' :: s) = some rest) :
    afterAnyIdent? ('r' :: '#' :: s) = some [] ↔ afterIdent? s = some [] := by
  rw [afterAnyIdent?] at h ⊢
  obtain ⟨t, ht, hraw⟩ := Option.bind_eq_some_iff.1 h
  split at hraw
  · cases hraw
  · rename_i hnever
    rw [ht, Option.bind_some, if_neg hnever]

theorem afterIdent?_append_iff (hw : w.all isNamePart = true)
    (hs : s = [] → ∃ rest, afterIdent? w = some rest) :
    afterIdent? (s ++ w) = some [] ↔ isFrontOfWord s = true := by
  cases s with
  | nil =>
    obtain ⟨rest, hrest⟩ := hs rfl
    cases w with
    | nil => cases hrest
    | cons c w =>
      rw [List.all_cons, Bool.and_eq_true] at hw
      simp [isFrontOfWord, afterIdent?_cons_iff, startsIdent_of_afterIdent? hrest, hw.2]
  | cons c s =>
    rw [List.cons_append, afterIdent?_cons_iff, List.all_append, hw, Bool.and_true, isFrontOfWord,
      Bool.and_eq_true]

end Code

open Code

/-! ## Cases of names -/

theorem isNamePart_of_all {s : List Char} (h : ∀ c ∈ s, isIdentifierPart c = true) :
    s.all isNamePart = true :=
  List.all_eq_true.2 fun c hc => isNamePart_of_isIdentifierPart (h c hc)

variable {name affix : String}

theorem isWordBack_of_isIdentifier (h : isIdentifier affix = true) : isWordBack affix = true :=
  isNamePart_of_all fun _ => isIdentifierPart_of_mem h

theorem isWordFront_of_isIdentifier (h : isIdentifier affix = true) : isWordFront affix = true := by
  have hparts : ∀ c ∈ affix.toList, isIdentifierPart c = true := fun _ => isIdentifierPart_of_mem h
  have htoken := identToken?_isSome_iff.1 (identToken?_isSome h)
  rw [isWordFront.eq_def]
  split
  · rename_i t ht
    exact absurd (hparts '#' (ht ▸ by simp)) (by decide)
  · rename_i t hraw
    rw [afterAnyIdent?_eq_afterIdent? hraw] at htoken
    rw [← List.append_nil affix.toList] at htoken
    refine (afterIdent?_append_iff (w := []) rfl fun hnil => ?_).1 htoken
    rw [hnil] at htoken
    exact ⟨_, htoken⟩

/-- **A name in lower case behind a text** is a token if the text leaves it a word. -/
theorem identToken?_snakeCase_iff (hname : isIdentifier name = true)
    (hident : Code.isIdentifier (affix ++ snakeCase name) = true) :
    (identToken? (affix ++ snakeCase name)).isSome = true ↔ isWordFront affix = true := by
  have hparts := isIdentifierPart_of_mem_snakeCase hname
  have hw : (snakeCase name).toList.all isNamePart = true := isNamePart_of_all hparts
  have hmark : ∀ t, (snakeCase name).toList ≠ '#' :: t := fun t ht =>
    absurd (hparts '#' (ht ▸ List.mem_cons_self)) (by decide)
  have hword {c : Char} {s : List Char} (hs : (affix ++ snakeCase name).toList = c :: s)
      (hc : isIdentifierPart c = true) : ∃ rest, afterAnyIdent? (c :: s) = some rest := by
    obtain ⟨-, rest, -, -, hrest, -⟩ := exists_word hs hc hident
    exact ⟨rest, hrest⟩
  rw [identToken?_isSome_iff, isWordFront.eq_def]
  rw [String.toList_append] at hword ⊢
  split
  -- behind the mark of a raw name
  · rename_i t ht
    rw [ht] at hword ⊢
    obtain ⟨rest, hrest⟩ : ∃ rest, afterAnyIdent? ('r' :: '#' :: (t ++ (snakeCase name).toList)) =
        some rest := hword rfl (by decide)
    rw [List.cons_append, List.cons_append, afterAnyIdent?_raw_iff hrest]
    refine afterIdent?_append_iff hw fun hnil => ?_
    subst hnil
    rw [List.nil_append, afterAnyIdent?] at hrest
    obtain ⟨u, hu, -⟩ := Option.bind_eq_some_iff.1 hrest
    exact ⟨u, hu⟩
  · rename_i t hraw
    have hplain : ∀ u, affix.toList ++ (snakeCase name).toList ≠ 'r' :: '#' :: u := by
      intro u hu
      rcases List.append_eq_cons_iff.1 hu with ⟨-, hs⟩ | ⟨s, hs, hu⟩
      · exact absurd (hparts '#' (hs ▸ by simp)) (by decide)
      · rcases List.append_eq_cons_iff.1 hu.symm with ⟨-, hs⟩ | ⟨r, hr, -⟩
        · exact hmark _ hs
        · exact hraw r (hr ▸ hs)
    rw [afterAnyIdent?_eq_afterIdent? hplain]
    refine afterIdent?_append_iff hw fun hnil => ?_
    rw [hnil, List.nil_append] at hword hplain
    cases hs : (snakeCase name).toList with
    | nil => exact absurd hs (toList_snakeCase_ne_nil hname)
    | cons c s =>
      rw [hs] at hplain
      rw [← afterAnyIdent?_eq_afterIdent? hplain]
      exact hword hs (hparts c (hs ▸ List.mem_cons_self))

/-- A name in lower case is a token, also with the mark of raw names. -/
theorem identToken?_of_snakeIdent? (hname : isIdentifier name = true) {s : String}
    (h : snakeIdent? name = some s) : (identToken? s).isSome = true := by
  obtain ⟨hident, rfl | rfl⟩ := snakeIdent?_cases h
  · rw [← String.empty_append (s := snakeCase name)] at hident ⊢
    exact (identToken?_snakeCase_iff hname hident).2 rfl
  · exact (identToken?_snakeCase_iff hname hident).2 rfl

/-- **Joined words with a text behind them** are a token if the text leaves them a word. -/
theorem identToken?_pascalCase_iff (hname : isIdentifier name = true)
    (hne : (pascalCase name).toList ≠ [])
    (hident : Code.isIdentifier (pascalCase name ++ affix) = true) :
    (identToken? (pascalCase name ++ affix)).isSome = true ↔ isWordBack affix = true := by
  have hparts : ∀ c ∈ (pascalCase name).toList, isIdentifierPart c = true := fun c hc => by
    simp [isIdentifierPart, isAlphanum_of_mem_pascalCase hname c hc]
  have hlower := isLower_of_head?_pascalCase hname
  rw [identToken?_isSome_iff, isWordBack]
  cases hs : (pascalCase name).toList with
  | nil => exact absurd hs hne
  | cons c s =>
    rw [hs, List.head?_cons] at hlower
    rw [hs, List.forall_mem_cons] at hparts
    have hchars : (pascalCase name ++ affix).toList = c :: (s ++ affix.toList) := by
      rw [String.toList_append, hs, List.cons_append]
    have hplain : ∀ t, c :: (s ++ affix.toList) ≠ 'r' :: '#' :: t := by
      rintro t ht
      exact absurd (hlower c rfl) ((List.cons.inj ht).1 ▸ by decide)
    obtain ⟨-, rest, -, -, hrest, -⟩ := exists_word hchars hparts.1 hident
    rw [afterAnyIdent?_eq_afterIdent? hplain] at hrest
    rw [hchars, afterAnyIdent?_eq_afterIdent? hplain, afterIdent?_cons_iff, List.all_append,
      isNamePart_of_all hparts.2, startsIdent_of_afterIdent? hrest]
    simp

/-! ## Names for a node -/

/-- What stands behind the name in the type of a node. -/
def Naming.suffix (c : Naming) : NodeKind → String
  | .token => c.tokenSuffix
  | .deduction => c.nodeSuffix
  | .union => ""

theorem Naming.isWordBack_suffix {c : Naming} (htoken : isWordBack c.tokenSuffix = true)
    (hnode : isWordBack c.nodeSuffix = true) (kind : NodeKind) :
    isWordBack (c.suffix kind) = true := by
  cases kind
  · exact htoken
  · exact hnode
  · rfl

/-- The suffixes that are used if no others are given leave words. -/
theorem Naming.isWordBack_suffix_default (kind : NodeKind) : isWordBack (suffix {} kind) = true :=
  isWordBack_suffix (isWordBack_of_isIdentifier (by decide))
    (isWordBack_of_isIdentifier (by decide)) kind

namespace NamedNode.IsNameable

variable {c : Naming} {e : NamedNode} (h : IsNameable c e) (hname : isIdentifier e.1 = true)

include h

theorem isIdentifier_variantName : Code.isIdentifier (variantName e.1) = true := by
  by_cases hchecked : e.2.kind ≠ .union ∨ (mappedType? c e).isSome
  · exact h.variant _ (if_pos hchecked)
  · -- the variant of a union whose type is generated is that type
    rw [not_or, not_not, Option.not_isSome_iff_eq_none] at hchecked
    have := (h.type hchecked.2).1
    rwa [chosenType, hchecked.2, Option.getD_none, hchecked.1] at this

theorem toList_pascalCase_ne_nil : (pascalCase e.1).toList ≠ [] := by
  rw [Ne, String.toList_eq_nil_iff]
  exact ne_empty_of_isIdentifier h.isIdentifier_variantName

include hname

/-- **The variant for a node is a token.** -/
theorem identToken?_variant : (identToken? (variantName e.1)).isSome = true := by
  have hident := h.isIdentifier_variantName
  rw [variantName, ← String.append_empty (s := pascalCase e.1)] at hident ⊢
  exact (identToken?_pascalCase_iff hname h.toList_pascalCase_ne_nil hident).2 rfl

/-- **The type that is generated for a node is a token** exactly if its suffix leaves it a word. -/
theorem identToken?_type_iff (hmapped : mappedType? c e = none) :
    (identToken? (chosenType c e)).isSome = true ↔ isWordBack (c.suffix e.2.kind) = true := by
  have htype : chosenType c e = pascalCase e.1 ++ c.suffix e.2.kind := by
    rw [chosenType, hmapped, Option.getD_none]
    cases e.2.kind
    · rfl
    · rfl
    · exact String.append_empty.symm
  have hident := (h.type hmapped).1
  rw [htype] at hident ⊢
  exact identToken?_pascalCase_iff hname h.toList_pascalCase_ne_nil hident

/-- **The function for a node is a token** exactly if the prefix leaves its name a word. -/
theorem identToken?_function_iff :
    (identToken? (functionName c e.1)).isSome = true ↔ isWordFront c.functionPrefix = true :=
  identToken?_snakeCase_iff hname h.function.1

/-- **The module for a node is a token.** -/
theorem identToken?_module : (identToken? (nodeNames c e).module).isSome = true := by
  obtain ⟨s, hs⟩ := h.module
  rw [module_nodeNames, show snakeIdent? e.1 = some s from hs, Option.getD_some]
  exact identToken?_of_snakeIdent? hname hs

end NamedNode.IsNameable

end GrammarKit
