import GrammarKit.Proofs.Regex.Normal
import GrammarKit.Regex.Matching

/-!
# The search finds matches

Whatever follows, the search ends well exactly if it can go on from some match, and where it ends
well it has gone on from a match. A time that takes nothing can be left out of a repetition, so it
does no harm that the search takes it for the last one.

* `Several.append`: repetitions in a row.
* `leavesEnd_matches`: a match takes the front of a text.
* `Search.Finds`: a search for the matches of a relation, with a lemma per operator.
* **`finds_search`**: the search of an expression finds its matches.
-/

namespace GrammarKit.Regex

/-! ## Repetitions -/

section Several

variable {α : Type} {step : α → α → Prop} {s t : α}

theorem Several.append {m n : Nat} :
    Several step (m + n) s t ↔ ∃ u, Several step m s u ∧ Several step n u t := by
  induction m generalizing s with
  | zero => simp [Several]
  | succ m ih =>
    rw [Nat.add_right_comm]
    simp only [Several, ih]
    constructor
    · rintro ⟨u, hu, v, hv, ht⟩
      exact ⟨v, ⟨u, hu, hv⟩, ht⟩
    · rintro ⟨v, ⟨u, hu, hv⟩, ht⟩
      exact ⟨u, hu, v, hv, ht⟩

end Several

/-! ## Matches take the front of a text -/

/-- What the relation leaves is the end of a text. -/
def LeavesEnd (step : List UInt8 → List UInt8 → Prop) : Prop := ∀ ⦃s t⦄, step s t → t <:+ s

theorem LeavesEnd.several {step : List UInt8 → List UInt8 → Prop} (h : LeavesEnd step) (n : Nat) :
    LeavesEnd (Several step n) := by
  induction n with
  | zero =>
    rintro s t rfl
    exact List.suffix_rfl
  | succ n ih =>
    rintro s t ⟨u, hu, ht⟩
    exact (ih ht).trans (h hu)

/-- The end of a text is all of it, or shorter. -/
theorem eq_or_length_lt {α : Type} {s t : List α} (h : t <:+ s) : t = s ∨ t.length < s.length :=
  (Nat.eq_or_lt_of_le h.length_le).imp_left h.eq_of_length

theorem decodeChar?_suffix {s t : List UInt8} {c : Char} (h : Text.decodeChar? s = some (c, t)) :
    t <:+ s := by
  unfold Text.decodeChar? at h
  repeat' split at h
  all_goals first
    | cases h; done
    | (simp only [Option.map_eq_some_iff, Prod.mk.injEq] at h
       obtain ⟨_, -, -, rfl⟩ := h
       simp [List.suffix_cons_iff])
    | (simp only [Option.some.injEq, Prod.mk.injEq] at h
       obtain ⟨-, rfl⟩ := h
       exact List.suffix_cons _ _)

theorem CharClass.rest?_suffix {c : CharClass} {s t : List UInt8} (h : c.rest? s = some t) :
    t <:+ s := by
  cases c with
  | bytes set =>
    cases s with
    | nil => cases h
    | cons b s =>
      rw [rest?] at h
      split at h <;> cases h
      exact List.suffix_cons b t
  | chars set =>
    rw [rest?] at h
    split at h
    · rename_i d u hd
      split at h <;> cases h
      exact decodeChar?_suffix hd
    · cases h

section LeavesEnd

variable (holds : Anchor → List UInt8 → Bool)

mutual

/-- **A match takes the front of a text.** -/
theorem leavesEnd_matches (r : Regex) : LeavesEnd (Matches holds r) := by
  intro s t h
  cases r with
  | empty =>
    obtain rfl : t = s := h
    exact List.suffix_rfl
  | literal bytes =>
    obtain rfl : s = bytes ++ t := h
    exact List.suffix_append bytes t
  | charClass c => exact CharClass.rest?_suffix h
  | look a =>
    obtain ⟨-, rfl⟩ := h
    exact List.suffix_rfl
  | repetition body least most greedy =>
    obtain ⟨n, -, -, h⟩ := h
    exact (leavesEnd_matches body).several n h
  | capture index body => exact leavesEnd_matches body h
  | concat parts => exact leavesEnd_matchesSeq parts h
  | alternation branches => exact leavesEnd_matchesAny branches h

theorem leavesEnd_matchesSeq (rs : List Regex) : LeavesEnd (MatchesSeq holds rs) := by
  intro s t h
  cases rs with
  | nil =>
    obtain rfl : t = s := h
    exact List.suffix_rfl
  | cons r rs =>
    obtain ⟨u, hu, h⟩ := h
    exact (leavesEnd_matchesSeq rs h).trans (leavesEnd_matches r hu)

theorem leavesEnd_matchesAny (rs : List Regex) : LeavesEnd (MatchesAny holds rs) := by
  intro s t h
  cases rs with
  | nil => exact h.elim
  | cons r rs =>
    rcases h with h | h
    · exact leavesEnd_matches r h
    · exact leavesEnd_matchesAny rs h

end

end LeavesEnd

/-! ## Searches that find matches -/

namespace Search

/-- **The search finds the matches of a relation.** -/
structure Finds (step : Search → Search) (matching : List UInt8 → List UInt8 → Prop) : Prop where
  sound : ∀ {k : Search} {s x : List UInt8}, step k s = some x → ∃ t, matching s t ∧ k t = some x
  complete : ∀ {k : Search} {s t : List UInt8}, matching s t → k t ≠ none → step k s ≠ none

section MoreOr

variable {greedy : Bool} {more stop : Search} {s : List UInt8}

theorem moreOr_eq_some {x : List UInt8} (h : moreOr greedy more stop s = some x) :
    more s = some x ∨ stop s = some x := by
  rw [moreOr] at h
  split at h
  · rcases Option.or_eq_some_iff.1 h with h | h
    · exact .inl h
    · exact .inr h.2
  · rcases Option.or_eq_some_iff.1 h with h | h
    · exact .inr h
    · exact .inl h.2

theorem moreOr_eq_none : moreOr greedy more stop s = none ↔ more s = none ∧ stop s = none := by
  rw [moreOr]
  split
  · exact Option.or_eq_none_iff
  · exact Option.or_eq_none_iff.trans and_comm

theorem moreOr_ne_none (h : more s ≠ none ∨ stop s ≠ none) : moreOr greedy more stop s ≠ none := by
  rw [Ne, moreOr_eq_none]
  rintro ⟨hmore, hstop⟩
  exact h.elim (· hmore) (· hstop)

end MoreOr

variable {step : Search → Search} {matching : List UInt8 → List UInt8 → Prop}
  (h : Finds step matching) {greedy : Bool} {k : Search} {s t x : List UInt8}

include h

theorem Finds.exactly (n : Nat) :
    Finds (fun k => Search.exactly step k n) (Several matching n) := by
  induction n with
  | zero => exact ⟨fun hx => ⟨_, rfl, hx⟩, fun ht hk => by rwa [← ht]⟩
  | succ n ih =>
    refine ⟨fun hx => ?_, ?_⟩
    · obtain ⟨u, hu, hx⟩ := h.sound hx
      obtain ⟨t, ht, hx⟩ := ih.sound hx
      exact ⟨t, ⟨u, hu, ht⟩, hx⟩
    · rintro k s t ⟨u, hu, ht⟩ hk
      exact h.complete hu (ih.complete ht hk)

theorem Finds.atMost (greedy : Bool) (n : Nat) :
    Finds (fun k => Search.atMost step greedy k n) fun s t =>
      ∃ m ≤ n, Several matching m s t := by
  induction n with
  | zero =>
    refine ⟨fun hx => ⟨_, ⟨0, Nat.le_refl 0, rfl⟩, hx⟩, ?_⟩
    rintro k s t ⟨m, hm, ht⟩ hk
    obtain rfl := Nat.le_zero.1 hm
    have hts : t = s := ht
    rwa [← hts]
  | succ n ih =>
    refine ⟨fun hx => ?_, ?_⟩
    · rcases moreOr_eq_some hx with hx | hx
      · obtain ⟨u, hu, hx⟩ := h.sound hx
        obtain ⟨t, ⟨m, hm, ht⟩, hx⟩ := ih.sound hx
        exact ⟨t, ⟨m + 1, Nat.succ_le_succ hm, u, hu, ht⟩, hx⟩
      · exact ⟨_, ⟨0, Nat.zero_le _, rfl⟩, hx⟩
    · rintro k s t ⟨m, hm, ht⟩ hk
      cases m with
      | zero =>
        have hts : t = s := ht
        exact moreOr_ne_none (.inr (hts ▸ hk))
      | succ m =>
        obtain ⟨u, hu, ht⟩ := ht
        exact moreOr_ne_none
          (.inl (h.complete hu (ih.complete ⟨m, Nat.le_of_succ_le_succ hm, ht⟩ hk)))

theorem Finds.anyNumber_sound (n : Nat) (hx : anyNumber step greedy k n s = some x) :
    ∃ t, (∃ m, Several matching m s t) ∧ k t = some x := by
  induction n generalizing s with
  | zero => exact ⟨s, ⟨0, rfl⟩, hx⟩
  | succ n ih =>
    rcases moreOr_eq_some hx with hx | hx
    · obtain ⟨u, hu, hx⟩ := h.sound hx
      split at hx
      · obtain ⟨t, ⟨m, ht⟩, hx⟩ := ih hx
        exact ⟨t, ⟨m + 1, u, hu, ht⟩, hx⟩
      · exact ⟨u, ⟨1, u, hu, rfl⟩, hx⟩
    · exact ⟨s, ⟨0, rfl⟩, hx⟩

/-- Times that take nothing are left out. -/
theorem Finds.anyNumber_complete (hends : LeavesEnd matching) {n : Nat} (hn : s.length ≤ n)
    {m : Nat} (ht : Several matching m s t) (hk : k t ≠ none) :
    anyNumber step greedy k n s ≠ none := by
  induction m generalizing s n with
  | zero =>
    have hts : t = s := ht
    rw [hts] at hk
    cases n with
    | zero => exact hk
    | succ n => exact moreOr_ne_none (.inr hk)
  | succ m ih =>
    obtain ⟨u, hu, ht⟩ := ht
    rcases eq_or_length_lt (hends hu) with rfl | hlt
    · exact ih hn ht
    · obtain ⟨n, rfl⟩ : ∃ l, n = l + 1 := ⟨n - 1, by omega⟩
      refine moreOr_ne_none (.inl (h.complete hu ?_))
      rw [if_pos hlt]
      exact ih (by omega) ht

theorem Finds.anyNumber (hends : LeavesEnd matching) (greedy : Bool) :
    Finds (fun k s => Search.anyNumber step greedy k s.length s) fun s t =>
      ∃ m, Several matching m s t :=
  ⟨fun hx => h.anyNumber_sound _ hx,
    fun ⟨_, ht⟩ hk => h.anyNumber_complete hends (Nat.le_refl _) ht hk⟩

omit h in
/-- One search in front of another. -/
theorem Finds.comp {step' : Search → Search} {matching' : List UInt8 → List UInt8 → Prop}
    (h : Finds step matching) (h' : Finds step' matching') :
    Finds (fun k => step (step' k)) fun s t => ∃ u, matching s u ∧ matching' u t := by
  refine ⟨fun hx => ?_, ?_⟩
  · obtain ⟨u, hu, hx⟩ := h.sound hx
    obtain ⟨t, ht, hx⟩ := h'.sound hx
    exact ⟨t, ⟨u, hu, ht⟩, hx⟩
  · rintro k s t ⟨u, hu, ht⟩ hk
    exact h.complete hu (h'.complete ht hk)

omit h in
theorem Finds.congr (h : Finds step matching) {matching' : List UInt8 → List UInt8 → Prop}
    (hiff : ∀ s t, matching s t ↔ matching' s t) : Finds step matching' :=
  ⟨fun hx => (h.sound hx).imp fun _ ht => ⟨(hiff _ _).1 ht.1, ht.2⟩,
    fun ht => h.complete ((hiff _ _).2 ht)⟩

end Search

/-! ## Expressions -/

section Expressions

open Search

variable (holds : Anchor → List UInt8 → Bool)

theorem search_literal (bytes : List UInt8) (k : Search) (s : List UInt8) :
    search holds (.literal bytes) k s =
      if bytes.isPrefixOf s then k (s.drop bytes.length) else none := rfl

theorem search_charClass (c : CharClass) (k : Search) (s : List UInt8) :
    search holds (.charClass c) k s = (c.rest? s).bind k := rfl

theorem search_look (a : Anchor) (k : Search) (s : List UInt8) :
    search holds (.look a) k s = if holds a s then k s else none := rfl

/-- A literal is found where it stands. -/
theorem finds_literal (bytes : List UInt8) :
    Finds (search holds (.literal bytes)) (Matches holds (.literal bytes)) := by
  refine ⟨fun {k s x} hx => ?_, ?_⟩
  · rw [search_literal] at hx
    split at hx
    · rename_i hprefix
      obtain ⟨t, rfl⟩ := List.isPrefixOf_iff_prefix.1 hprefix
      rw [List.drop_left] at hx
      exact ⟨t, rfl, hx⟩
    · cases hx
  · intro k s t ht hk
    have hs : s = bytes ++ t := ht
    rw [search_literal, hs, if_pos (List.isPrefixOf_iff_prefix.2 (List.prefix_append bytes t)),
      List.drop_left]
    exact hk

/-- A repetition: the times that have to be, then those that may be. -/
theorem finds_repetition {body : Regex} {least : Nat} {most : Option Nat}
    (hmost : ∀ m, most = some m → least ≤ m)
    (hbody : Finds (search holds body) (Matches holds body)) (greedy : Bool) :
    Finds (search holds (.repetition body least most greedy))
      (Matches holds (.repetition body least most greedy)) := by
  cases most with
  | some m =>
    have hle := hmost m rfl
    refine Finds.congr ((hbody.exactly least).comp (hbody.atMost greedy (m - least))) fun s t => ?_
    constructor
    · rintro ⟨u, hu, n, hn, ht⟩
      refine ⟨least + n, Nat.le_add_right _ _, ?_, Several.append.2 ⟨u, hu, ht⟩⟩
      rintro _ ⟨⟩
      omega
    · rintro ⟨n, hn, hm, ht⟩
      have hnm := hm m rfl
      obtain ⟨n, rfl⟩ := Nat.exists_eq_add_of_le hn
      obtain ⟨u, hu, ht⟩ := Several.append.1 ht
      exact ⟨u, hu, n, by omega, ht⟩
  | none =>
    refine Finds.congr ((hbody.exactly least).comp
      (hbody.anyNumber (leavesEnd_matches holds body) greedy)) fun s t => ?_
    constructor
    · rintro ⟨u, hu, n, ht⟩
      exact ⟨least + n, Nat.le_add_right _ _, fun m hm => (by cases hm), Several.append.2 ⟨u, hu, ht⟩⟩
    · rintro ⟨n, hn, -, ht⟩
      obtain ⟨n, rfl⟩ := Nat.exists_eq_add_of_le hn
      obtain ⟨u, hu, ht⟩ := Several.append.1 ht
      exact ⟨u, hu, n, ht⟩

mutual

/-- **The search of an expression finds its matches.** -/
theorem finds_search (r : Regex) (hr : r.IsNormal) :
    Finds (search holds r) (Matches holds r) := by
  cases r with
  | empty => exact ⟨fun hx => ⟨_, rfl, hx⟩, fun ht hk => by rwa [← (show _ = _ from ht)]⟩
  | literal bytes => exact finds_literal holds bytes
  | charClass c =>
    refine ⟨fun hx => Option.bind_eq_some_iff.1 hx, fun {k s t} ht hk => ?_⟩
    have ht : c.rest? s = some t := ht
    rw [search_charClass, ht]
    exact hk
  | look a =>
    refine ⟨fun {k s x} hx => ?_, fun {k s t} ht hk => ?_⟩
    · rw [search_look] at hx
      split at hx
      · rename_i ha
        exact ⟨s, ⟨ha, rfl⟩, hx⟩
      · cases hx
    · obtain ⟨ha, rfl⟩ := ht
      rw [search_look, if_pos ha]
      exact hk
  | repetition body least most greedy =>
    exact finds_repetition holds (fun m hm => (hr.2.most_le m hm).1) (finds_search body hr.1) greedy
  | capture index body => exact finds_search body hr
  | concat parts => exact finds_searchSeq parts hr
  | alternation branches => exact finds_searchAny branches hr.2

theorem finds_searchSeq (rs : List Regex) (hrs : AllNormal rs) :
    Finds (searchSeq holds rs) (MatchesSeq holds rs) := by
  cases rs with
  | nil => exact ⟨fun hx => ⟨_, rfl, hx⟩, fun ht hk => by rwa [← (show _ = _ from ht)]⟩
  | cons r rs => exact (finds_search r hrs.1).comp (finds_searchSeq rs hrs.2)

theorem finds_searchAny (rs : List Regex) (hrs : AllNormal rs) :
    Finds (searchAny holds rs) (MatchesAny holds rs) := by
  cases rs with
  | nil => exact ⟨fun hx => (by cases hx), fun ht => ht.elim⟩
  | cons r rs =>
    have hr := finds_search r hrs.1
    have hrs := finds_searchAny rs hrs.2
    refine ⟨fun hx => ?_, fun ht hk => ?_⟩
    · rcases Option.or_eq_some_iff.1 hx with hx | hx
      · exact (hr.sound hx).imp fun _ ht => ⟨.inl ht.1, ht.2⟩
      · exact (hrs.sound hx.2).imp fun _ ht => ⟨.inr ht.1, ht.2⟩
    · rw [searchAny, Ne, Option.or_eq_none_iff, not_and_or]
      exact ht.imp (fun ht => hr.complete ht hk) fun ht => hrs.complete ht hk

end

/-- **A first match is found exactly if there is a match**, and it is one. -/
theorem first?_eq_none_iff {r : Regex} (hr : r.IsNormal) {s : List UInt8} :
    first? holds r s = none ↔ ∀ t, ¬ Matches holds r s t := by
  have hfinds := finds_search holds r hr
  constructor
  · exact fun hnone t ht => hfinds.complete ht (Option.some_ne_none t) hnone
  · intro h
    cases hx : first? holds r s with
    | none => rfl
    | some x =>
      obtain ⟨t, ht, -⟩ := hfinds.sound hx
      exact absurd ht (h t)

end Expressions

end GrammarKit.Regex
