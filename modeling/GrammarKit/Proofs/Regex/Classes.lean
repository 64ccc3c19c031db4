import GrammarKit.Proofs.Regex.Lexical

/-!
# Classes that are read

The intervals of every class that is read have a member each.

* `Intervals.IsOrdered`: intervals of which each has a member.
* **`isOrdered_normalize`**, `isOrdered_complement`: operations on sets build such intervals.
* **`isOrdered_bytes`**, **`isOrdered_chars`**: written classes are such intervals.
-/

namespace GrammarKit.Regex

open Text

namespace Intervals

/-- **Intervals of which each has a member.** -/
def IsOrdered (s : Intervals) : Prop := ∀ r ∈ s, r.1 ≤ r.2

variable {s t : Intervals}

theorem isOrdered_insertSorted {r : Nat × Nat} (hr : r.1 ≤ r.2) (hs : s.IsOrdered) :
    (insertSorted r s).IsOrdered := by
  induction s with
  | nil => exact List.forall_mem_singleton.2 hr
  | cons q s ih =>
    obtain ⟨hq, hs'⟩ := List.forall_mem_cons.1 hs
    rw [insertSorted]
    split
    · exact List.forall_mem_cons.2 ⟨hr, hs⟩
    · exact List.forall_mem_cons.2 ⟨hq, ih hs'⟩

theorem isOrdered_join {r : Nat × Nat} (hr : r.1 ≤ r.2) (hs : s.IsOrdered) :
    (join r s).IsOrdered := by
  induction s generalizing r with
  | nil => exact List.forall_mem_singleton.2 hr
  | cons q s ih =>
    obtain ⟨hq, hs⟩ := List.forall_mem_cons.1 hs
    rw [join]
    split
    · exact ih (Nat.le_trans hr (Nat.le_max_left _ _)) hs
    · exact List.forall_mem_cons.2 ⟨hr, ih hq hs⟩

/-- **Normalized intervals have a member each.** -/
theorem isOrdered_normalize (s : Intervals) : (normalize s).IsOrdered := by
  have hsorted (l : Intervals) (hl : l.IsOrdered) : (l.foldr insertSorted []).IsOrdered := by
    induction l with
    | nil => exact List.forall_mem_nil _
    | cons r l ih =>
      obtain ⟨hr, hl⟩ := List.forall_mem_cons.1 hl
      exact isOrdered_insertSorted hr (ih hl)
  have hfilter : IsOrdered (s.filter fun r => r.1 ≤ r.2) := fun r hr => by
    simpa using (List.mem_filter.1 hr).2
  have hall := hsorted _ hfilter
  rw [normalize]
  generalize (s.filter fun r => r.1 ≤ r.2).foldr insertSorted [] = sorted at hall
  cases sorted with
  | nil => exact List.forall_mem_nil _
  | cons r l =>
    obtain ⟨hr, hl⟩ := List.forall_mem_cons.1 hall
    exact isOrdered_join hr hl

theorem isOrdered_union (s t : Intervals) : (s.union t).IsOrdered := isOrdered_normalize _

theorem isOrdered_gaps (top n : Nat) (s : Intervals) : (gaps top n s).IsOrdered := by
  induction s generalizing n with
  | nil =>
    rw [gaps]
    split
    · exact List.forall_mem_singleton.2 ‹_›
    · exact List.forall_mem_nil _
  | cons r s ih =>
    rw [gaps]
    refine List.forall_mem_append.2 ⟨?_, ih _⟩
    split
    · exact List.forall_mem_singleton.2 (Nat.le_sub_one_of_lt ‹_›)
    · exact List.forall_mem_nil _

theorem isOrdered_negateBytes (s : Intervals) : s.negateBytes.IsOrdered := isOrdered_gaps _ _ _

theorem isOrdered_negateChars (s : Intervals) : s.negateChars.IsOrdered := by
  intro r hr
  obtain ⟨q, -, hr⟩ := List.mem_flatMap.1 hr
  dsimp only [clip] at hr
  generalize (if 0xD800 ≤ q.1 ∧ q.1 ≤ 0xDFFF then 0xE000 else q.1) = first,
    (if 0xD800 ≤ q.2 ∧ q.2 ≤ 0xDFFF then 0xD7FF else q.2) = last at hr
  split at hr
  · rwa [List.mem_singleton.1 hr]
  · cases hr

theorem isOrdered_ofChars (set : CharSet) : (ofChars set).IsOrdered := by
  cases set with
  | table blocks => exact isOrdered_normalize _
  | either left right => exact isOrdered_normalize _
  | except left right => exact isOrdered_normalize _

end Intervals

open Intervals

/-! ## Written classes -/

theorem isOrdered_asciiClass (kind : AsciiClass) : kind.bytes.IsOrdered := by
  cases kind <;> unfold IsOrdered AsciiClass.bytes <;> decide

theorem isOrdered_escapeBytes (kind : EscapeClass) : kind.bytes.IsOrdered := by
  cases kind
  · exact isOrdered_asciiClass .digit
  · exact isOrdered_asciiClass .space
  · exact isOrdered_asciiClass .word

theorem isOrdered_escapeChars (kind : EscapeClass) : kind.chars.IsOrdered := by
  cases kind with
  | digit => exact isOrdered_ofChars (.ofCategories [.decimalNumber])
  | space => exact isOrdered_normalize (whiteSpace.flatMap Block.intervals)
  | word =>
    unfold EscapeClass.chars
    exact isOrdered_union _ _

theorem isOrdered_finishBytes (m : Mode) (negated : Bool) {s : Intervals} (hs : s.IsOrdered) :
    (m.finishBytes negated s).IsOrdered := by
  unfold Mode.finishBytes
  dsimp only
  split
  · exact isOrdered_negateBytes _
  · split
    · exact isOrdered_normalize _
    · exact hs

theorem isOrdered_finishChars (m : Mode) (negated : Bool) {s : Intervals} (hs : s.IsOrdered) :
    (m.finishChars negated s).IsOrdered := by
  unfold Mode.finishChars
  dsimp only
  split
  · exact isOrdered_negateChars _
  · split
    · exact isOrdered_normalize _
    · exact hs

theorem isOrdered_propertyChars {query : PropertyQuery} {s : Intervals}
    (h : propertyChars query = .ok s) : s.IsOrdered := by
  cases query with
  | named name =>
    unfold propertyChars at h
    dsimp only at h
    split at h <;> cases h
    exact isOrdered_ofChars _
  | valued name value negated =>
    unfold propertyChars at h
    dsimp only at h
    split at h
    case h_14 => split at h <;> cases h
    -- each of the known names looks up its characters
    all_goals
      split at h <;> cases h
      exact isOrdered_ofChars _

theorem isOrdered_property {m : Mode} {query : PropertyQuery} {negated : Bool} {s : Intervals}
    (h : m.property query negated = .ok s) : s.IsOrdered := by
  rw [Mode.property] at h
  split at h
  · obtain ⟨chars, hchars, h⟩ := bind_ok h
    cases h
    exact isOrdered_finishChars m _ (isOrdered_propertyChars hchars)
  · cases h

theorem isOrdered_apply (op : SetOp) (s t : Intervals) : (op.apply s t).IsOrdered := by
  cases op <;> exact isOrdered_normalize _

theorem isOrdered_itemsBytes {m : Mode} {items : List ClassItem} {s : Intervals}
    (h : ClassItem.bytes m items = .ok s) : s.IsOrdered := by
  cases items with
  | nil =>
    cases h
    exact List.forall_mem_nil _
  | cons item items =>
    obtain ⟨left, -, h⟩ := bind_ok h
    obtain ⟨right, -, h⟩ := bind_ok h
    cases h
    exact isOrdered_union _ _

theorem isOrdered_itemsChars {m : Mode} {items : List ClassItem} {s : Intervals}
    (h : ClassItem.chars m items = .ok s) : s.IsOrdered := by
  cases items with
  | nil =>
    cases h
    exact List.forall_mem_nil _
  | cons item items =>
    obtain ⟨left, -, h⟩ := bind_ok h
    obtain ⟨right, -, h⟩ := bind_ok h
    cases h
    exact isOrdered_union _ _

/-- **A written class of bytes.** -/
theorem isOrdered_bytes {m : Mode} {set : ClassSet} {s : Intervals} (h : set.bytes m = .ok s) :
    s.IsOrdered := by
  cases set with
  | items items => exact isOrdered_itemsBytes h
  | op kind left right =>
    obtain ⟨l, -, h⟩ := bind_ok h
    obtain ⟨r, -, h⟩ := bind_ok h
    split at h <;> cases h <;> exact isOrdered_apply _ _ _

/-- **A written class of characters.** -/
theorem isOrdered_chars {m : Mode} {set : ClassSet} {s : Intervals} (h : set.chars m = .ok s) :
    s.IsOrdered := by
  cases set with
  | items items => exact isOrdered_itemsChars h
  | op kind left right =>
    obtain ⟨l, -, h⟩ := bind_ok h
    obtain ⟨r, -, h⟩ := bind_ok h
    split at h <;> cases h <;> exact isOrdered_apply _ _ _

/-! ## Classes of expressions -/

/-- A choice between single characters or classes is a class whose intervals have a member each. -/
theorem isOrdered_mergedClass? {rs : List Regex} {c : CharClass} (h : mergedClass? rs = some c) :
    c.set.IsOrdered := by
  have hmap {α : Type} {f : Intervals → CharClass} (hf : ∀ s, (f s).set = s) {x : Option α}
      {g : α → Intervals} (hx : ((x.map fun a => normalize (g a)).map f) = some c) :
      c.set.IsOrdered := by
    obtain ⟨s, hs, rfl⟩ := Option.map_eq_some_iff.1 hx
    obtain ⟨a, -, rfl⟩ := Option.map_eq_some_iff.1 hs
    rw [hf]
    exact isOrdered_normalize _
  have horElse {x y : Option CharClass} (hxy : (x <|> y) = some c) : x = some c ∨ y = some c := by
    cases x with
    | none => exact .inr hxy
    | some _ => exact .inl hxy
  rw [mergedClass?] at h
  rcases horElse h with h | h <;> rcases horElse h with h | h <;> exact hmap (fun _ => rfl) h

end GrammarKit.Regex
