import GrammarKit.Proofs.Peg.Readers

/-!
# Words of grammar texts, written and read

Names, quoted texts, quoted characters and numbers are read back as they were written.

* `IsRuleName`: the names that a grammar text can hold; a name cannot start with `PUSH`.
* `finds_identifier`, `refuses_identifier`: names.
* **`innerText_quoted`**, `finds_quoted`: texts between quotes.
* `finds_character`: characters between single quotes.
* `digits?_repr`: numbers.
-/

namespace GrammarKit.Peg

open Reader

/-! ## Names -/

/-- Letters, digits and underscores, no digit in front. -/
def IsPlainName (name : String) : Prop :=
  ∃ c s, name.toList = c :: s ∧ startsName c = true ∧ ∀ d ∈ s, continuesName d = true

/-- Whether a text starts with the word that no name starts with. -/
def startsWithPush (s : List Char) : Bool := (drop? ['P', 'U', 'S', 'H'] s).isSome

/-- **The names of rules in grammar texts.** -/
def IsRuleName (name : String) : Prop := IsPlainName name ∧ startsWithPush name.toList = false

/-- What stands behind a name in a text: something that does not go on with it. -/
def EndsName (k : List Char) : Prop := ∀ c ∈ k.head?, continuesName c = false

theorem endsName_cons {c : Char} {k : List Char} (h : continuesName c = false) :
    EndsName (c :: k) := by
  intro d hd
  cases hd
  exact h

theorem EndsName.takeWhile {k : List Char} (h : EndsName k) : k.takeWhile continuesName = [] := by
  cases k with
  | nil => rfl
  | cons c k => rw [List.takeWhile_cons, h c rfl]; rfl

theorem EndsName.dropWhile {k : List Char} (h : EndsName k) : k.dropWhile continuesName = k := by
  cases k with
  | nil => rfl
  | cons c k => rw [List.dropWhile_cons, h c rfl]; rfl

theorem continuesName_of_startsName {c : Char} (h : startsName c = true) :
    continuesName c = true := by
  simp only [startsName, continuesName, Char.isAlphanum, Bool.or_eq_true] at h ⊢
  rcases h with h | h
  · exact Or.inl h
  · exact Or.inr (Or.inl h)

theorem IsPlainName.continues {name : String} (h : IsPlainName name) :
    ∀ c ∈ name.toList, continuesName c = true := by
  obtain ⟨c, s, hn, hc, hs⟩ := h
  intro d hd
  rw [hn, List.mem_cons] at hd
  rcases hd with rfl | hd
  · exact continuesName_of_startsName hc
  · exact hs d hd

theorem startsGap_of_continuesName {c : Char} (h : continuesName c = true) :
    startsGap c = false := by
  simp only [startsGap, Bool.or_eq_false_iff, beq_eq_false_iff_ne]
  refine ⟨⟨⟨⟨?_, ?_⟩, ?_⟩, ?_⟩, ?_⟩ <;> rintro rfl <;> revert h <;> decide

/-- A word made of name characters cannot reach beyond the end of a name. -/
theorem drop?_append_of_none {w n k : List Char} (hw : ∀ c ∈ w, continuesName c = true)
    (hk : EndsName k) (h : drop? w n = none) : drop? w (n ++ k) = none := by
  induction w generalizing n with
  | nil => cases h
  | cons c w ih =>
    cases n with
    | nil =>
      cases k with
      | nil => rfl
      | cons d k =>
        have hd : c ≠ d := by
          rintro rfl
          have := hk c rfl
          rw [hw c List.mem_cons_self] at this
          cases this
        simp [drop?, hd]
    | cons d n =>
      rw [List.cons_append, drop?]
      rw [drop?] at h
      split
      · rename_i hcd
        rw [if_pos hcd] at h
        exact ih (fun x hx => hw x (List.mem_cons_of_mem _ hx)) h
      · rfl

theorem drop?_append_of_some {w n rest : List Char} (h : drop? w n = some rest) (k : List Char) :
    drop? w (n ++ k) = some (rest ++ k) := by
  induction w generalizing n with
  | nil => cases h; rfl
  | cons c w ih =>
    cases n with
    | nil => cases h
    | cons d n =>
      rw [drop?] at h
      rw [List.cons_append, drop?]
      split
      · rename_i hcd
        rw [if_pos hcd] at h
        exact ih h
      · rename_i hcd
        rw [if_neg hcd] at h
        cases h

theorem startsWithPush_append {n k : List Char} (hk : EndsName k) :
    startsWithPush (n ++ k) = startsWithPush n := by
  cases h : drop? ['P', 'U', 'S', 'H'] n with
  | none => rw [startsWithPush, startsWithPush, drop?_append_of_none (by decide) hk h, h]
  | some rest => rw [startsWithPush, startsWithPush, drop?_append_of_some h, h]; rfl

theorem name?_append {name : String} (h : IsRuleName name) {k : List Char} (hk : EndsName k) :
    name? (name.toList ++ k) = some (name, k) := by
  obtain ⟨⟨c, s, hn, hc, hs⟩, hp⟩ := h
  have hpush := startsWithPush_append (n := name.toList) hk
  rw [hp, startsWithPush, Option.isSome_eq_false_iff] at hpush
  have hname : String.ofList (c :: s) = name := by rw [← hn, String.ofList_toList]
  rw [hn] at hpush ⊢
  rw [List.cons_append, name?, if_pos ⟨hc, hpush⟩, List.takeWhile_append_of_pos hs,
    List.dropWhile_append_of_pos hs, hk.takeWhile, hk.dropWhile, List.append_nil, hname]

theorem name?_push {s : List Char} (h : startsWithPush s = true) : name? s = none := by
  rw [startsWithPush, Option.isSome_iff_ne_none, ne_eq, ← Option.isNone_iff_eq_none] at h
  cases s with
  | nil => rfl
  | cons c s => rw [name?, if_neg fun hc => h hc.2]

theorem name?_of_not_starts {c : Char} (h : startsName c = false) (s : List Char) :
    name? (c :: s) = none := by
  rw [name?, if_neg fun hc => by rw [h] at hc; exact Bool.noConfusion hc.1]

theorem finds_identifier {name : String} (h : IsRuleName name) {k : List Char} (hk : EndsName k) :
    identifier.Finds (name.toList ++ k) (fun x => x.1 = name) k :=
  (finds_plain (P := (· = name)) (name?_append h hk) rfl).located.named _

theorem refuses_identifier {s : List Char} (h : name? s = none) : identifier.Refuses s :=
  (refuses_plain h).located.named _

/-! ## Numbers -/

theorem isDigit_toDigits {n : Nat} : ∀ c ∈ Nat.toDigits 10 n, c.isDigit = true :=
  fun _ hc => Nat.isDigit_of_mem_toDigits (by decide) (by decide) hc

theorem digits?_repr (n : Nat) {c : Char} (hc : c.isDigit = false) (k : List Char) :
    digits? ((toString n).toList ++ c :: k) = some (Nat.toDigits 10 n, c :: k) := by
  have hl : (toString n).toList = Nat.toDigits 10 n := Nat.toList_repr
  have htake : (Nat.toDigits 10 n ++ c :: k).takeWhile Char.isDigit = Nat.toDigits 10 n := by
    rw [List.takeWhile_append_of_pos isDigit_toDigits, List.takeWhile_cons, hc]
    exact List.append_nil _
  have hdrop : (Nat.toDigits 10 n ++ c :: k).dropWhile Char.isDigit = c :: k := by
    rw [List.dropWhile_append_of_pos isDigit_toDigits, List.dropWhile_cons, hc]
    rfl
  rw [hl, digits?, htake, hdrop, if_neg]
  rw [List.isEmpty_iff]
  exact Nat.toDigits_ne_nil

theorem number_toDigits (n : Nat) : number (Nat.toDigits 10 n) = n :=
  Nat.ofDigitChars_ten_toDigits

/-! ## Characters by their numbers -/

/-- The digits of `n` in the base 16. -/
def hexDigitsOf (n : Nat) : List Char := (Nat.toDigits 16 n).map Char.toUpper

theorem hexValue?_digitChar {d : Nat} (h : d < 16) :
    Text.hexValue? d.digitChar.toUpper = some d := by
  have : ∀ d : Fin 16, Text.hexValue? (d : Nat).digitChar.toUpper = some (d : Nat) := by decide
  exact this ⟨d, h⟩

theorem hexNumber_append (l : List Char) (c : Char) :
    Text.hexNumber (l ++ [c]) = 16 * Text.hexNumber l + (Text.hexValue? c).getD 0 := by
  simp [Text.hexNumber]

theorem hexNumber_zeros (n : Nat) (l : List Char) :
    Text.hexNumber (List.replicate n '0' ++ l) = Text.hexNumber l := by
  induction n with
  | zero => rfl
  | succ n ih =>
    rw [List.replicate_succ, List.cons_append, ← ih]
    rfl

theorem hexNumber_hexDigitsOf (n : Nat) : Text.hexNumber (hexDigitsOf n) = n := by
  induction n using Nat.strongRecOn with
  | ind n ih =>
    by_cases h : n < 16
    · rw [hexDigitsOf, Nat.toDigits_of_lt_base h, List.map_singleton, ← List.nil_append [_],
        hexNumber_append, hexValue?_digitChar h]
      simp [Text.hexNumber]
    · have hdiv : n / 16 < n := Nat.div_lt_self (by omega) (by decide)
      have hih := ih _ hdiv
      rw [hexDigitsOf] at hih
      rw [hexDigitsOf, Nat.toDigits_of_base_le (by decide) (by omega), List.map_append,
        List.map_singleton, hexNumber_append, hih, hexValue?_digitChar (Nat.mod_lt _ (by decide))]
      exact Nat.div_add_mod n 16

theorem isHexDigit_hexDigitsOf (n : Nat) : ∀ c ∈ hexDigitsOf n, isHexDigit c = true := by
  induction n using Nat.strongRecOn with
  | ind n ih =>
    intro c hc
    by_cases h : n < 16
    · rw [hexDigitsOf, Nat.toDigits_of_lt_base h, List.map_singleton, List.mem_singleton] at hc
      rw [hc, isHexDigit, hexValue?_digitChar h]
      rfl
    · have hdiv : n / 16 < n := Nat.div_lt_self (by omega) (by decide)
      rw [hexDigitsOf, Nat.toDigits_of_base_le (by decide) (by omega), List.map_append,
        List.map_singleton, List.mem_append, List.mem_singleton] at hc
      rcases hc with hc | hc
      · exact ih _ hdiv c hc
      · rw [hc, isHexDigit, hexValue?_digitChar (Nat.mod_lt _ (by decide))]
        rfl

theorem hexDigits_toList (n : Nat) :
    (hexDigits n).toList =
      List.replicate (4 - (hexDigitsOf n).length) '0' ++ hexDigitsOf n := by
  rw [hexDigits, String.toList_ofList]
  rfl

theorem isHexDigit_hexDigits (n : Nat) : ∀ c ∈ (hexDigits n).toList, isHexDigit c = true := by
  intro c hc
  rw [hexDigits_toList, List.mem_append, List.mem_replicate] at hc
  rcases hc with ⟨-, rfl⟩ | hc
  · decide
  · exact isHexDigit_hexDigitsOf n c hc

theorem hexNumber_hexDigits (n : Nat) : Text.hexNumber (hexDigits n).toList = n := by
  rw [hexDigits_toList, hexNumber_zeros, hexNumber_hexDigitsOf]

/-- The number of a character takes four to six digits. -/
theorem length_hexDigits (c : Char) :
    2 ≤ (hexDigits c.toNat).toList.length ∧ (hexDigits c.toNat).toList.length ≤ 6 := by
  have hc : c.toNat < 16 ^ 6 := by
    have := c.valid
    simp only [UInt32.isValidChar, Nat.isValidChar] at this
    change c.val.toNat < 16 ^ 6
    omega
  have hlen := (Nat.length_toDigits_le_iff (b := 16) (by decide) (by decide : 0 < 6)).mpr hc
  rw [hexDigits_toList, List.length_append, List.length_replicate, hexDigitsOf, List.length_map]
  omega

theorem scalar?_toNat (c : Char) : Text.scalar? c.toNat = some c := by
  have hv : c.toNat.isValidChar := c.valid
  rw [Text.scalar?, dif_pos hv]
  rfl

theorem escape?_numbered (c : Char) (k : List Char) :
    escape? ('u' :: '\x7b' :: ((hexDigits c.toNat).toList ++ '\x7d' :: k)) = some (some c, k) := by
  obtain ⟨h₂, h₆⟩ := length_hexDigits c
  have htake : (((hexDigits c.toNat).toList ++ '\x7d' :: k).take 6).takeWhile isHexDigit =
      (hexDigits c.toNat).toList := by
    rw [List.take_append, List.take_of_length_le h₆,
      List.takeWhile_append_of_pos (isHexDigit_hexDigits _)]
    cases 6 - (hexDigits c.toNat).toList.length with
    | zero => exact List.append_nil _
    | succ m => exact List.append_nil _
  have hdrop : ((hexDigits c.toNat).toList ++ '\x7d' :: k).drop
      (hexDigits c.toNat).toList.length = '\x7d' :: k := List.drop_left
  simp only [escape?, htake, hdrop, if_pos h₂, hexNumber_hexDigits, scalar?_toNat]

/-! ## Quoted texts and characters -/

theorem quotedChar_cases (quote c : Char) :
    ((c = quote ∨ c = '\\') ∧ (quotedChar quote c).toList = ['\\', c]) ∨
    (c ≠ quote ∧ c ≠ '\\' ∧ (quotedChar quote c).toList = [c]) ∨
    (quotedChar quote c).toList =
      '\\' :: 'u' :: '\x7b' :: ((hexDigits c.toNat).toList ++ ['\x7d']) := by
  by_cases h : c = quote ∨ c = '\\'
  · exact Or.inl ⟨h, by rw [quotedChar, if_pos h, String.toList_ofList]⟩
  · right
    obtain ⟨h₁, h₂⟩ := not_or.mp h
    by_cases hp : isPlain c = true
    · exact Or.inl ⟨h₁, h₂, by rw [quotedChar, if_neg h, if_pos hp]; exact String.toList_singleton c⟩
    · refine Or.inr ?_
      rw [quotedChar, if_neg h, if_neg hp, numberedChar, String.toList_append,
        String.toList_append]
      rfl

theorem escape?_quote {quote : Char} (hq : quote = '"' ∨ quote = '\'') {c : Char}
    (hc : c = quote ∨ c = '\\') (k : List Char) : escape? (c :: k) = some (some c, k) := by
  rcases hc with rfl | rfl
  · rcases hq with rfl | rfl <;> rfl
  · rfl

/-- **The inside of a quoted text is read up to its closing quote.** -/
theorem innerText_quoted (s k : List Char) (n : Nat) (hn : s.length ≤ n) :
    innerText n (s.flatMap (fun c => (quotedChar '"' c).toList) ++ '"' :: k) =
      (s.map some, '"' :: k) := by
  induction s generalizing n with
  | nil =>
    cases n with
    | zero => rfl
    | succ n => simp [innerText]
  | cons c s ih =>
    obtain ⟨n, rfl⟩ : ∃ m, n = m + 1 := ⟨n - 1, by simp only [List.length_cons] at hn; omega⟩
    have hih := ih n (by simp only [List.length_cons] at hn; omega)
    rw [List.flatMap_cons, List.append_assoc, List.map_cons]
    rcases quotedChar_cases '"' c with ⟨hc, he⟩ | ⟨h₁, h₂, he⟩ | he
    · rw [he, List.cons_append, List.cons_append, List.nil_append, innerText,
        if_neg (by decide), if_pos rfl, escape?_quote (Or.inl rfl) hc]
      simp only [hih]
    · rw [he, List.cons_append, List.nil_append, innerText, if_neg h₁, if_neg h₂, hih]
    · rw [he, List.cons_append, innerText, if_neg (by decide), if_pos rfl, List.cons_append,
        List.cons_append, List.append_assoc, List.singleton_append, escape?_numbered]
      simp only [hih]

theorem innerChar?_quoted (c : Char) (k : List Char) :
    innerChar? ((quotedChar '\'' c).toList ++ '\'' :: k) = some (some c, '\'' :: k) := by
  rcases quotedChar_cases '\'' c with ⟨hc, he⟩ | ⟨h₁, h₂, he⟩ | he
  · rw [he, List.cons_append, List.cons_append, List.nil_append, innerChar?,
      if_neg (by decide), if_pos rfl, escape?_quote (Or.inr rfl) hc]
  · rw [he, List.cons_append, List.nil_append, innerChar?, if_neg h₁, if_neg h₂]
  · rw [he, List.cons_append, innerChar?, if_neg (by decide), if_pos rfl, List.cons_append,
      List.cons_append, List.append_assoc, List.singleton_append, escape?_numbered]

theorem textOf?_map_some (s : List Char) : textOf? (s.map some) = some (String.ofList s) := by
  have h : (s.map some).mapM id = some s := by
    induction s with
    | nil => rfl
    | cons c s ih => rw [List.map_cons, List.mapM_cons, ih]; rfl
  rw [textOf?, h]
  rfl

theorem quoteText_toList (s : String) :
    (quoteText s).toList =
      '"' :: (s.toList.flatMap (fun c => (quotedChar '"' c).toList) ++ ['"']) := by
  rw [quoteText, String.toList_append, String.toList_append, String.toList_join,
    List.flatMap_map]
  rfl

theorem length_le_quoted (quote : Char) (s : List Char) :
    s.length ≤ (s.flatMap fun c => (quotedChar quote c).toList).length := by
  induction s with
  | nil => exact Nat.le_refl _
  | cons c s ih =>
    have hpos : 1 ≤ (quotedChar quote c).toList.length := by
      rcases quotedChar_cases quote c with ⟨-, he⟩ | ⟨-, -, he⟩ | he <;> rw [he] <;>
        simp only [List.length_cons] <;> omega
    rw [List.flatMap_cons, List.length_append, List.length_cons]
    omega

/-- **A quoted text is read as the text.** -/
theorem finds_quoted (s : String) (k : List Char) :
    quoted.Finds ((quoteText s).toList ++ k) (fun x => x.1 = some s) k := by
  have hlen : s.toList.length ≤
      (s.toList.flatMap (fun c => (quotedChar '"' c).toList) ++ '"' :: k).length := by
    have := length_le_quoted '"' s.toList
    rw [List.length_append]
    omega
  rw [quoteText_toList, List.cons_append, List.append_assoc, List.singleton_append]
  refine Finds.named (Finds.located (P := (· = some s)) ?_) _
  refine (finds_sign "quote" "\"" _).bind fun _ _ => ?_
  refine (finds_plain (P := (· = s.toList.map some))
    (congrArg some (innerText_quoted s.toList k _ hlen)) rfl).bind fun cs hcs => ?_
  refine (finds_sign "quote" "\"" k).bind fun _ _ => ?_
  rw [hcs, textOf?_map_some, String.ofList_toList]
  exact finds_pure (P := (· = some s)) rfl k

theorem quoteChar_toList (c : Char) :
    (quoteChar c).toList = '\'' :: ((quotedChar '\'' c).toList ++ ['\'']) := by
  rw [quoteChar, String.toList_append, String.toList_append]
  rfl

/-- **A quoted character is read as the character.** -/
theorem finds_character (c : Char) (k : List Char) :
    character.Finds ((quoteChar c).toList ++ k) (fun x => x.1 = some c) k := by
  rw [quoteChar_toList, List.cons_append, List.append_assoc, List.singleton_append]
  refine Finds.named (Finds.located (P := (· = some c)) ?_) _
  refine (finds_sign "single_quote" "'" _).bind fun _ _ => ?_
  refine ((finds_plain (P := (· = some c)) (innerChar?_quoted c k) rfl).named _).bind
    fun d hd => ?_
  refine (finds_sign "single_quote" "'" k).bind fun _ _ => ?_
  rw [hd]
  exact finds_pure (P := (· = some c)) rfl k

end GrammarKit.Peg
