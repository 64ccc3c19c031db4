import GrammarKit.Model.Validation
import GrammarKit.Text.Classes
import GrammarKit.Text.LetterCase

/-!
# Tables on ASCII

What a table says about ASCII is said by the few of its blocks that start there.

* `low`: the blocks that start in ASCII.
* `LowTables`: what the tables say about ASCII.
* `isNameStart_of_isAlpha`, `isNamePart_of_isIdentifierPart`: names of nodes are names of code.
* `toUpper_ascii`, `toLower_ascii`: letter case.
-/

namespace GrammarKit.Text

/-- What holds of all code points of ASCII holds of its characters. -/
theorem forall_ascii {P : Char → Prop} (h : ∀ n < 128, P (Char.ofNat n)) {c : Char}
    (hc : c.toNat < 128) : P c := by
  have hplain := h c.toNat hc
  rwa [Char.ofNat_toNat] at hplain

-- A statement about the members of a list is decided along the list, not by going through all
-- characters.
instance (priority := 2000) decidableForallMem {α : Type} (p : α → Prop) [DecidablePred p]
    (l : List α) : Decidable (∀ a ∈ l, p a) := List.decidableBAll p l

instance (priority := 2000) decidableExistsMem {α : Type} (p : α → Prop) [DecidablePred p]
    (l : List α) : Decidable (∃ a ∈ l, p a) := List.decidableBEx p l

/-! ## Written tables -/

/-- The entries of a table that is written in these characters. -/
def entriesOf (cs : List Char) : List (List Char) :=
  ((splitAt '\n' cs).flatMap (splitAt ' ')).filter (· ≠ [])

-- The characters of a literal are found by unification, as decoding it takes far longer.
theorem tableEntries_eq {table : String} {cs : List Char} (h : table = String.ofList cs) :
    tableEntries table = entriesOf cs := by
  rw [h, tableEntries, String.toList_ofList, entriesOf]

/-- The blocks that start in ASCII. -/
def low (table : List Block) : List Block := table.filter (·.first < 128)

theorem member_low {n : Nat} (hn : n < 128) (table : List Block) :
    member (low table) n = member table n := by
  simp only [member, low, List.any_filter]
  refine congrArg (List.any table) (funext fun b => ?_)
  by_cases hb : b.first < 128
  · simp [hb]
  · simp [Block.contains, hb, show ¬ b.first ≤ n by omega]

theorem member_append (left right : List Block) (n : Nat) :
    member (left ++ right) n = (member left n || member right n) := List.any_append

theorem low_blocks {table : String} {cs : List Char} {l : List Block}
    (hcs : table = String.ofList cs) (hl : low ((entriesOf cs).map Block.parse) = l) :
    low (blocks table) = l := by
  rw [← hl, blocks, tableEntries_eq hcs]

deriving instance DecidableEq for Shift

/-- The shifts of blocks that start in ASCII. -/
def lowShifts (table : List Shift) : List Shift := table.filter (·.block.first < 128)

theorem shiftBy_lowShifts {n : Nat} (hn : n < 128) (table : List Shift) :
    shiftBy (lowShifts table) n = shiftBy table n := by
  refine congrArg (Option.getD · n) ?_
  induction table with
  | nil => rfl
  | cons m table ih =>
    rw [lowShifts] at ih ⊢
    by_cases hb : m.block.first < 128
    · rw [List.filter_cons_of_pos (by simpa using hb), List.findSome?_cons, List.findSome?_cons, ih]
    · have hmove : m.move? n = none := by
        simp [Shift.move?, Block.contains, show ¬ m.block.first ≤ n by omega]
      rw [List.filter_cons_of_neg (by simpa using hb), ih, List.findSome?_cons, hmove]

theorem lowShifts_shifts {table : String} {cs : List Char} {l : List Shift}
    (hcs : table = String.ofList cs) (hl : lowShifts ((entriesOf cs).map Shift.parse) = l) :
    lowShifts (shifts table) = l := by
  rw [← hl, shifts, tableEntries_eq hcs]

section Tables

/-- **What the tables say about ASCII.** -/
structure LowTables : Prop where
  upperLetter : low Category.upperLetterBlocks = [⟨0x41, 0x5A, 1⟩]
  lowerLetter : low Category.lowerLetterBlocks = [⟨0x61, 0x7A, 1⟩]
  decimalNumber : low Category.decimalNumberBlocks = [⟨0x30, 0x39, 1⟩]
  connectorPunctuation : low Category.connectorPunctuationBlocks = [⟨0x5F, 0x5F, 1⟩]
  patternSyntax : low patternSyntax = [⟨0x21, 0x2F, 1⟩, ⟨0x3A, 0x40, 1⟩, ⟨0x5B, 0x5E, 1⟩,
    ⟨0x60, 0x60, 1⟩, ⟨0x7B, 0x7E, 1⟩]
  patternWhiteSpace : low patternWhiteSpace = [⟨9, 0xD, 1⟩, ⟨0x20, 0x20, 1⟩]
  whiteSpace : low whiteSpace = [⟨9, 0xD, 1⟩, ⟨0x20, 0x20, 1⟩]
  xidStartExceptions :
    low (blocks "37A E33 EB3 309B-309C FC5E-FC63 FDFA-FDFB FE70-FE7E/2 FF9E-FF9F") = []
  xidContinueExceptions : low (blocks "37A 309B-309C FC5E-FC63 FDFA-FDFB FE70-FE7E/2") = []
  newLetters : low newLetters = []
  otherUpper : low otherUpper = []
  otherLower : low otherLower = []
  upperShifts : lowShifts upperShifts = [⟨⟨0x61, 0x7A, 1⟩, -0x20⟩]
  lowerShifts : lowShifts lowerShifts = [⟨⟨0x41, 0x5A, 1⟩, 0x20⟩]
  longUpper : longUpper.all (fun e => 128 ≤ e.1) = true

set_option maxRecDepth 20000

theorem lowTables : LowTables where
  upperLetter := low_blocks rfl (by decide +kernel)
  lowerLetter := low_blocks rfl (by decide +kernel)
  decimalNumber := low_blocks rfl (by decide +kernel)
  connectorPunctuation := low_blocks rfl (by decide +kernel)
  patternSyntax := low_blocks rfl (by decide +kernel)
  patternWhiteSpace := low_blocks rfl (by decide +kernel)
  whiteSpace := low_blocks rfl (by decide +kernel)
  xidStartExceptions := low_blocks rfl (by decide +kernel)
  xidContinueExceptions := low_blocks rfl (by decide +kernel)
  newLetters := low_blocks rfl (by decide +kernel)
  otherUpper := low_blocks rfl (by decide +kernel)
  otherLower := low_blocks rfl (by decide +kernel)
  upperShifts := lowShifts_shifts rfl (by decide +kernel)
  lowerShifts := lowShifts_shifts rfl (by decide +kernel)
  longUpper := by
    rw [longUpper, tableEntries_eq (rfl : longUpperTable = _)]
    decide +kernel

end Tables

/-! ## Characters of names -/

theorem contains_ofCategories {ks : List Category} {k : Category} {n : Nat} (hk : k ∈ ks)
    (h : member k.assignedBlocks n = true) : (CharSet.ofCategories ks).contains n = true := by
  have hknown : member (ks.flatMap Category.assignedBlocks) n = true := by
    rw [member, List.any_eq_true] at h ⊢
    obtain ⟨b, hb, hn⟩ := h
    exact ⟨b, List.mem_flatMap.2 ⟨k, hk, hb⟩, hn⟩
  rw [CharSet.ofCategories]
  split
  · rw [CharSet.contains, CharSet.contains, hknown, Bool.true_or]
  · exact hknown

theorem member_range {first last n : Nat} (hfirst : first ≤ n) (hlast : n ≤ last) :
    member [⟨first, last, 1⟩] n = true := by
  simp [member, Block.contains, hfirst, hlast, Nat.mod_one]

theorem isUpper_eq_decide (c : Char) : c.isUpper = decide (0x41 ≤ c.toNat ∧ c.toNat ≤ 0x5A) :=
  rfl

theorem isLower_eq_decide (c : Char) :
    c.isLower = (decide (0x61 ≤ c.toNat) && decide (c.toNat ≤ 0x7A)) :=
  rfl

theorem bounds_of_isAlpha {c : Char} (h : c.isAlpha = true) :
    (0x41 ≤ c.toNat ∧ c.toNat ≤ 0x5A) ∨ (0x61 ≤ c.toNat ∧ c.toNat ≤ 0x7A) := by
  rcases Bool.or_eq_true_iff.1 h with h | h
  · exact .inl (by simpa only [isUpper_eq_decide, decide_eq_true_eq] using h)
  · exact .inr (by simpa only [isLower_eq_decide, Bool.and_eq_true, decide_eq_true_eq] using h)

theorem bounds_of_isDigit {c : Char} (h : c.isDigit = true) : 0x30 ≤ c.toNat ∧ c.toNat ≤ 0x39 := by
  simp only [Char.isDigit, Bool.and_eq_true, decide_eq_true_eq, UInt32.le_iff_toNat_le,
    ge_iff_le] at h
  exact h

theorem bounds_of_isIdentifierPart {c : Char} (h : isIdentifierPart c = true) :
    (0x41 ≤ c.toNat ∧ c.toNat ≤ 0x5A) ∨ (0x61 ≤ c.toNat ∧ c.toNat ≤ 0x7A) ∨
      (0x30 ≤ c.toNat ∧ c.toNat ≤ 0x39) ∨ c.toNat = 0x5F := by
  simp only [isIdentifierPart, Char.isAlphanum, Bool.or_eq_true, beq_iff_eq] at h
  rcases h with (h | h) | rfl
  · rcases bounds_of_isAlpha h with h | h
    · exact .inl h
    · exact .inr (.inl h)
  · exact .inr (.inr (.inl (bounds_of_isDigit h)))
  · exact .inr (.inr (.inr rfl))

/-- What stands in names of nodes has no meaning in patterns. -/
theorem member_patterns {c : Char} (h : isIdentifierPart c = true) :
    member (patternSyntax ++ patternWhiteSpace) c.toNat = false := by
  have hc := bounds_of_isIdentifierPart h
  have hlow : c.toNat < 128 := by omega
  rw [member_append, ← member_low hlow patternSyntax, ← member_low hlow patternWhiteSpace,
    LowTables.patternSyntax lowTables, LowTables.patternWhiteSpace lowTables]
  simp only [member, Block.contains, List.any_cons, List.any_nil, Nat.mod_one, beq_self_eq_true,
    Bool.and_true, Bool.or_false, Bool.or_eq_false_iff, Bool.and_eq_false_iff,
    decide_eq_false_iff_not]
  omega

theorem isWhiteSpace_of_isIdentifierPart {c : Char} (h : isIdentifierPart c = true) :
    isWhiteSpace c = false := by
  have hc := bounds_of_isIdentifierPart h
  rw [isWhiteSpace, ← member_low (by omega), LowTables.whiteSpace lowTables]
  simp only [member, Block.contains, List.any_cons, List.any_nil, Nat.mod_one, beq_self_eq_true,
    Bool.and_true, Bool.or_false, Bool.or_eq_false_iff, Bool.and_eq_false_iff,
    decide_eq_false_iff_not]
  omega

/-- A text has no white space around it if it starts and ends like a word. -/
theorem trim_of_ends {s : List Char} (hfirst : s.head?.all isIdentifierPart = true)
    (hlast : s.getLast?.all isIdentifierPart = true) : trim s = s := by
  have hkeep {t : List Char} (h : t.head?.all isIdentifierPart = true) :
      t.dropWhile isWhiteSpace = t := by
    cases t with
    | nil => rfl
    | cons c t => rw [List.dropWhile_cons_of_neg (by simp [isWhiteSpace_of_isIdentifierPart h])]
  rw [trim, trimStart, hkeep hfirst, trimEnd, hkeep (by rwa [List.head?_reverse]),
    List.reverse_reverse]

theorem contains_except {left right : CharSet} {n : Nat} (hleft : left.contains n = true)
    (hright : right.contains n = false) : (left.except right).contains n = true := by
  rw [CharSet.contains, hleft, hright]
  rfl

theorem contains_either {left right : CharSet} {n : Nat}
    (h : left.contains n = true ∨ right.contains n = true) :
    (left.either right).contains n = true := by
  rw [CharSet.contains, Bool.or_eq_true]
  exact h

theorem contains_idStart {c : Char} (h : c.isAlpha = true) : idStart.contains c.toNat = true := by
  have hpart : isIdentifierPart c = true := by simp [isIdentifierPart, Char.isAlphanum, h]
  refine contains_except (contains_either (.inl ?_)) (member_patterns hpart)
  rcases bounds_of_isAlpha h with hc | hc
  · refine contains_ofCategories (k := .upperLetter) (by decide) ?_
    rw [Category.assignedBlocks, ← member_low (by omega), LowTables.upperLetter lowTables]
    exact member_range hc.1 hc.2
  · refine contains_ofCategories (k := .lowerLetter) (by decide) ?_
    rw [Category.assignedBlocks, ← member_low (by omega), LowTables.lowerLetter lowTables]
    exact member_range hc.1 hc.2

theorem contains_idContinue {c : Char} (h : isIdentifierPart c = true) :
    idContinue.contains c.toNat = true := by
  refine contains_except (contains_either ?_) (member_patterns h)
  simp only [isIdentifierPart, Char.isAlphanum, Bool.or_eq_true, beq_iff_eq] at h
  rcases h with (h | h) | rfl
  · exact .inl (contains_idStart h)
  · refine .inr (contains_either (.inl (contains_ofCategories (k := .decimalNumber) (by decide) ?_)))
    have hc := bounds_of_isDigit h
    rw [Category.assignedBlocks, ← member_low (by omega), LowTables.decimalNumber lowTables]
    exact member_range hc.1 hc.2
  · refine .inr (contains_either (.inl
      (contains_ofCategories (k := .connectorPunctuation) (by decide) ?_)))
    rw [Category.assignedBlocks, ← member_low (by decide),
      LowTables.connectorPunctuation lowTables]
    exact member_range (Nat.le_refl _) (Nat.le_refl _)

/-- Letters start names of code. -/
theorem isNameStart_of_isAlpha {c : Char} (h : c.isAlpha = true) : isNameStart c = true := by
  have hc := bounds_of_isAlpha h
  have hstart : xidStart.contains c.toNat = true := by
    refine contains_except (contains_idStart h) ?_
    rw [CharSet.contains, ← member_low (by omega), LowTables.xidStartExceptions lowTables]
    rfl
  rw [isNameStart, hstart, Bool.true_or]

/-- What stands in names of nodes stands in names of code. -/
theorem isNamePart_of_isIdentifierPart {c : Char} (h : isIdentifierPart c = true) :
    isNamePart c = true := by
  have hc := bounds_of_isIdentifierPart h
  have hpart : xidContinue.contains c.toNat = true := by
    refine contains_except (contains_idContinue h) ?_
    rw [CharSet.contains, ← member_low (by omega), LowTables.xidContinueExceptions lowTables]
    rfl
  rw [isNamePart, hpart, Bool.true_or]

/-- What has a meaning in patterns stands in no name of code. -/
theorem notName_of_pattern {c : Char} (hlow : c.toNat < 128)
    (h : member (low patternSyntax ++ low patternWhiteSpace) c.toNat = true) :
    isNameStart c = false ∧ isNamePart c = false := by
  rw [member_append, member_low hlow, member_low hlow, ← member_append] at h
  have hnew : member newLetters c.toNat = false := by
    rw [← member_low hlow, LowTables.newLetters lowTables]
    rfl
  have hpattern (set : CharSet) : (exceptPatterns set).contains c.toNat = false := by
    rw [exceptPatterns, CharSet.contains, CharSet.contains, h, Bool.not_true, Bool.and_false]
  have hexcept (left right : CharSet) (hleft : left.contains c.toNat = false) :
      (left.except right).contains c.toNat = false := by
    rw [CharSet.contains, hleft, Bool.false_and]
  exact ⟨by rw [isNameStart, hnew, xidStart, hexcept idStart _ (hpattern _), Bool.or_false],
    by rw [isNamePart, hnew, xidContinue, hexcept idContinue _ (hpattern _), Bool.or_false]⟩

/-! ## Letter case -/

theorem find?_longUpper {n : Nat} (h : n < 128) : longUpper.find? (·.1 == n) = none := by
  rw [List.find?_eq_none]
  intro e he heq
  have hlow := List.all_eq_true.1 (LowTables.longUpper lowTables) e he
  rw [decide_eq_true_eq, beq_iff_eq.1 heq] at hlow
  omega

theorem ofNat_upper : ∀ n < 128,
    Char.ofNat (shiftBy [⟨⟨0x61, 0x7A, 1⟩, -0x20⟩] n) = (Char.ofNat n).toUpper := by
  decide +kernel

theorem ofNat_lower : ∀ n < 128,
    Char.ofNat (shiftBy [⟨⟨0x41, 0x5A, 1⟩, 0x20⟩] n) = (Char.ofNat n).toLower := by
  decide +kernel

/-- ASCII characters have upper-case forms in ASCII. -/
theorem toUpper_ascii {c : Char} (h : c.toNat < 128) : toUpper c = [c.toUpper] := by
  have hupper := ofNat_upper c.toNat h
  rw [← LowTables.upperShifts lowTables, shiftBy_lowShifts h, Char.ofNat_toNat] at hupper
  rw [toUpper, find?_longUpper h, Option.map_none, Option.getD_none, hupper]

/-- ASCII characters have lower-case forms in ASCII. -/
theorem toLower_ascii {c : Char} (h : c.toNat < 128) : toLower c = [c.toLower] := by
  have hlower := ofNat_lower c.toNat h
  rw [← LowTables.lowerShifts lowTables, shiftBy_lowShifts h, Char.ofNat_toNat] at hlower
  rw [toLower, if_neg (by omega), hlower]

end GrammarKit.Text
