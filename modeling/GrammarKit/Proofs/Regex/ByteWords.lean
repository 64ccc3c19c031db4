import GrammarKit.Proofs.Regex.FirstBytes

/-!
# Sets of bytes in four words

A set of bytes is a row of 256 bits. Kept in four words of 64 bits, a byte has its bit in the word
that is a quarter of the row away for every 64 bytes, and no interval leads to a fifth word.

* `ByteSet.Words`, `ByteSet.words`: four words, and those of a set.
* `Words.insert?`: an interval put in byte by byte, which fails where there is no word.
* **`insert?_words`**, **`meets_words`**: the words of a set do what the set does.
* `ByteSet.IsBuilt`, **`intersects_iff`**: in sets that are built of intervals, all bytes beyond
  ASCII are one.
-/

namespace GrammarKit.Regex.ByteSet

variable {s t : ByteSet} {n m : Nat}

/-! ## Words -/

/-- Four words; the bit of byte `n` is bit `n % 64` of word `n / 64`. -/
abbrev Words := Vector (BitVec 64) 4

/-- The words of a set. -/
def words (s : ByteSet) : Words := Vector.ofFn fun i => s.bits.extractLsb' (64 * i) 64

namespace Words

/-- Puts a byte in. There is no word for the bytes from 256 on. -/
def set? (ws : Words) (n : Nat) : Option Words :=
  if h : n / 64 < 4 then some (ws.set (n / 64) (ws[n / 64] ||| 1#64 <<< (n % 64))) else none

/-- Puts the bytes of an interval in, one after the other. -/
def insert? (ws : Words) (first last : Nat) : Option Words :=
  let (first, last) := bucket first last
  (List.range' first (last + 1 - first)).foldlM set? ws

/-- Whether a word has a bit in common with the word in its place. -/
def meets (ws vs : Words) : Bool := (Vector.zipWith (fun w v => w &&& v != 0) ws vs).any id

end Words

theorem getElem_words (s : ByteSet) {i : Nat} (hi : i < 4) :
    s.words[i] = s.bits.extractLsb' (64 * i) 64 := by
  rw [words, Vector.getElem_ofFn]

/-- **A byte has its bit in one of the words.** -/
theorem set?_words (s : ByteSet) (hn : n < 256) :
    s.words.set? n = some (words ⟨s.bits ||| BitVec.twoPow 256 n⟩) := by
  have hword : n / 64 < 4 := by omega
  rw [Words.set?, dif_pos hword]
  refine congrArg some (Vector.ext fun i hi => BitVec.eq_of_getLsbD_eq fun j hj => ?_)
  rw [Vector.getElem_set, getElem_words s hword, getElem_words s hi, getElem_words _ hi,
    ← BitVec.twoPow_eq, BitVec.getLsbD_extractLsb', BitVec.getLsbD_or, BitVec.getLsbD_twoPow]
  split
  · rename_i hin
    subst hin
    rw [BitVec.getLsbD_or, BitVec.getLsbD_extractLsb', BitVec.getLsbD_twoPow]
    have hplace : n % 64 = j ↔ n = 64 * (n / 64) + j := by omega
    have hlow : n % 64 < 64 := by omega
    simp [hj, hn, hplace, hlow]
  · rename_i hin
    have hplace : n ≠ 64 * i + j := by omega
    simp [hj, hplace]

/-- **The words of an interval put in** are those of the set with the interval. All bytes of an
interval have a word. -/
theorem insert?_words (s : ByteSet) (first last : Nat) :
    s.words.insert? first last = some (s.insert first last).words := by
  have hspan (first count : Nat) (h : first + count ≤ 256) :
      (List.range' first count).foldlM Words.set? s.words =
        some (words ⟨s.bits ||| span first count⟩) := by
    induction count with
    | zero => simp [span]
    | succ count ih =>
      rw [List.range'_1_concat, List.foldlM_append, ih (by omega)]
      show (words _).set? (first + count) >>= pure = _
      rw [set?_words _ (by omega), bind_pure, BitVec.or_assoc]
      rfl
  rw [Words.insert?, insert]
  generalize hb : bucket first last = b
  refine hspan b.1 (b.2 + 1 - b.1) ?_
  subst hb
  simp only [bucket]
  split_ifs <;> omega

/-! ## Common bytes -/

theorem ne_zero_iff {w : Nat} {x : BitVec w} : x ≠ 0 ↔ ∃ i, x.getLsbD i = true := by
  constructor
  · intro hne
    by_contra hno
    refine hne (BitVec.eq_of_getLsbD_eq fun i _ => ?_)
    rw [BitVec.ofNat_eq_ofNat, BitVec.getLsbD_zero, Bool.eq_false_iff]
    exact fun hi => hno ⟨i, hi⟩
  · rintro ⟨i, hi⟩ rfl
    simp at hi

theorem intersects_iff_exists : s.intersects t = true ↔ ∃ n, s.has n = true ∧ t.has n = true := by
  rw [intersects, bne_iff_ne, ne_zero_iff]
  simp only [BitVec.getLsbD_and, Bool.and_eq_true, has]

/-- **Two sets have a byte in common** exactly if two of their words meet. -/
theorem meets_words (s t : ByteSet) : s.words.meets t.words = s.intersects t := by
  have hbit {i : Nat} (hi : i < 4) (j : Nat) : (s.words[i] &&& t.words[i]).getLsbD j =
      (decide (j < 64) && (s.has (64 * i + j) && t.has (64 * i + j))) := by
    rw [BitVec.getLsbD_and, getElem_words s hi, getElem_words t hi, BitVec.getLsbD_extractLsb',
      BitVec.getLsbD_extractLsb']
    by_cases hj : j < 64 <;> simp [hj, has]
  rw [Bool.eq_iff_iff, intersects_iff_exists, Words.meets, Vector.any_iff_exists]
  simp only [Vector.getElem_zipWith, id, bne_iff_ne, ne_zero_iff, hbit, Bool.and_eq_true,
    decide_eq_true_eq]
  constructor
  · rintro ⟨i, -, j, -, hs, ht⟩
    exact ⟨_, hs, ht⟩
  · rintro ⟨n, hs, ht⟩
    have hn : n < 256 := BitVec.lt_of_getLsbD hs
    refine ⟨n / 64, by omega, n % 64, by omega, ?_⟩
    rw [Nat.div_add_mod]
    exact ⟨hs, ht⟩

/-! ## Bytes beyond ASCII -/

/-- **Sets that are built** of intervals, one after the other or joined. -/
inductive IsBuilt : ByteSet → Prop
  | empty : IsBuilt .empty
  | insert {s : ByteSet} (first last : Nat) : IsBuilt s → IsBuilt (s.insert first last)
  | union {s t : ByteSet} : IsBuilt s → IsBuilt t → IsBuilt (s.union t)

/-- **A member of the intervals is in the set**, and with it all bytes beyond ASCII if it is beyond
ASCII. -/
theorem has_ofIntervals_of_has {is : Intervals} (h : is.has m = true)
    (hm : m = n ∨ 0x80 ≤ m ∧ 0x80 ≤ n) (hn : n < 0x100) : (ofIntervals is).has n = true := by
  by_cases hwide : n < 0x80
  · obtain rfl : m = n := hm.resolve_right fun h => by omega
    rwa [has_ofIntervals hwide]
  · have hn' := Nat.le_of_not_lt hwide
    rw [has_ofIntervals_eq_any (fun s r => has_insert_wide s hn' hn) is, List.any_eq_true]
    obtain ⟨r, hr, hmem⟩ := List.any_eq_true.1 h
    simp only [Bool.and_eq_true, decide_eq_true_eq] at hmem
    exact ⟨r, hr, decide_eq_true (by omega)⟩

/-- **All bytes beyond ASCII are one.** -/
theorem IsBuilt.has_eq (h : s.IsBuilt) (hn : 0x80 ≤ n) (hn' : n < 0x100) (hm : 0x80 ≤ m)
    (hm' : m < 0x100) : s.has n = s.has m := by
  induction h with
  | empty => rw [has_empty, has_empty]
  | insert first last _ ih => rw [has_insert_wide _ hn hn', has_insert_wide _ hm hm', ih]
  | union _ _ ihs iht => rw [has_union, has_union, ihs, iht]

theorem IsBuilt.ofIntervals (is : Intervals) : (ofIntervals is).IsBuilt := by
  have hfoldl (is : Intervals) {s : ByteSet} (hs : s.IsBuilt) :
      (is.foldl (fun t r => t.insert r.1 r.2) s).IsBuilt := by
    induction is generalizing s with
    | nil => exact hs
    | cons r is ih => exact ih (hs.insert r.1 r.2)
  exact hfoldl is .empty

/-- **Two sets have a byte in common** exactly if they have an ASCII byte in common, or both have
bytes beyond ASCII. -/
theorem intersects_iff (ht : t.IsBuilt) : s.intersects t = true ↔
    (∃ n < 0x80, s.has n = true ∧ t.has n = true) ∨
      (∃ n ≥ 0x80, s.has n = true) ∧ ∃ n ≥ 0x80, t.has n = true := by
  rw [intersects_iff_exists]
  constructor
  · rintro ⟨n, hsn, htn⟩
    by_cases hn : n < 0x80
    · exact .inl ⟨n, hn, hsn, htn⟩
    · exact .inr ⟨⟨n, Nat.le_of_not_lt hn, hsn⟩, n, Nat.le_of_not_lt hn, htn⟩
  · rintro (⟨n, -, hsn, htn⟩ | ⟨⟨n, hn, hsn⟩, m, hm, htm⟩)
    · exact ⟨n, hsn, htn⟩
    · have hn' : n < 0x100 := BitVec.lt_of_getLsbD hsn
      have hm' : m < 0x100 := BitVec.lt_of_getLsbD htm
      exact ⟨n, hsn, (ht.has_eq hn hn' hm hm').trans htm⟩

end GrammarKit.Regex.ByteSet
