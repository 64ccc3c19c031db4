import GrammarKit.Proofs.Peg.Passes

/-!
# All that a plan can take

A plan that runs makes its choices in order and takes back none of them. What it takes is one of the
texts that it can take if its choices are free, and the passes over plans add no texts to these:
making lists may change what a plan takes, but not what it can take.

* `Plan.yields_of_takes`: what a plan takes is among what it can take.
* `Plan.Yields.of_append`: what comes behind the text that is taken does not matter.
* `Plan.yields_of_listed`: making lists adds nothing.
* **`Expr.IsLexical.yields_of_routine`**: what a token takes is what its expression can take.
-/

namespace GrammarKit.Peg

open Relation

namespace Taking

theorem char_eq_read {f : Char → Bool} {s t : List Char} :
    char f s = .read t ↔ ∃ c, s = c :: t ∧ f c = true := by
  cases s with
  | nil => simp [char]
  | cons c s => by_cases hc : f c = true <;> simp [char, hc]

/-- A class takes one character, whatever comes behind it. -/
theorem char_of_append {f : Char → Bool} {s t u : List Char}
    (h : char f (s ++ u) = .read (t ++ u)) : char f s = .read t := by
  obtain ⟨c, hs, hc⟩ := char_eq_read.1 h
  rw [← List.cons_append, List.append_cancel_right_eq] at hs
  exact char_eq_read.2 ⟨c, hs, hc⟩

theorem char_refused_of_append {f : Char → Bool} {s u : List Char}
    (h : char f (s ++ u) = .refused) : char f s = .refused := by
  cases s with
  | nil => rfl
  | cons c s => by_cases hc : f c = true <;> simp_all [char]

theorem notAhead_eq_read {f : Taking} {s t : List Char} :
    notAhead f s = .read t ↔ t = s ∧ f s = .refused := by
  rw [notAhead]
  cases f s <;> simp [eq_comm]

/-- What a loop takes, each time takes. -/
theorem loop_yields {f : Taking} {step : List Char → List Char → Prop}
    (hf : ∀ s t, f s = .read t → step s t) {n : Nat} {s t : List Char}
    (h : loop f n s = .read t) : ReflTransGen step s t := by
  induction n generalizing s with
  | zero => cases h
  | succ n ih =>
    rw [loop] at h
    cases hread : f s with
    | refused =>
      rw [hread] at h
      cases h
      exact .refl
    | stuck =>
      rw [hread] at h
      cases h
    | read u =>
      simp only [hread] at h
      split at h
      · exact .head (hf s u hread) (ih h)
      · cases h

theorem star_yields {f : Taking} {step : List Char → List Char → Prop}
    (hf : ∀ s t, f s = .read t → step s t) {s t : List Char} (h : star f s = .read t) :
    ReflTransGen step s t := by
  rw [star] at h
  cases hread : f s with
  | refused =>
    rw [hread] at h
    cases h
    exact .refl
  | stuck =>
    rw [hread] at h
    cases h
  | read u =>
    rw [hread] at h
    exact .head (hf s u hread) (loop_yields hf h)

end Taking

namespace Plan

variable {p q : Plan} {s t u : List Char}

/-- **What a plan takes is among what it can take.** -/
theorem yields_of_takes (h : p.takes s = .read t) : p.Yields s t := by
  induction p generalizing s t with
  | optional body ih =>
    rcases Reading.orElse_eq_read h with h | h
    · exact .inr (ih h)
    · cases h
      exact .inl rfl
  | star body ih => exact Taking.star_yields (fun _ _ => ih) h
  | seq left right ihl ihr =>
    obtain ⟨u, hu, ht⟩ := Reading.bind_eq_read h
    exact ⟨u, ihl hu, ihr ht⟩
  | choice left right ihl ihr => exact (Reading.orElse_eq_read h).imp ihl ihr
  | text | range | ref | notAhead | anyCase | peek | push | ahead | upTo | undoing => exact h

namespace Yields

/-- What is left is the end of the text. -/
theorem suffix (h : p.Yields s t) : t <:+ s := by
  induction p generalizing s t with
  | optional body ih =>
    rcases h with rfl | h
    · exact List.suffix_rfl
    · exact ih h
  | star body ih =>
    induction h with
    | refl => exact List.suffix_rfl
    | tail _ hstep ihs => exact (ih hstep).trans ihs
  | seq left right ihl ihr =>
    obtain ⟨u, hu, ht⟩ := h
    exact (ihr ht).trans (ihl hu)
  | choice left right ihl ihr => exact h.elim ihl ihr
  | text | range | ref | notAhead | anyCase | peek | push | ahead | upTo | undoing =>
    exact leavesEnd_takes _ _ _ h

/-- **What comes behind the text that is taken does not matter** to a plain plan. -/
theorem of_append (hp : p.IsPlain) (h : p.Yields (s ++ u) (t ++ u)) : p.Yields s t := by
  induction p generalizing s t with
  | text w =>
    have htext : s ++ u = w.toList ++ (t ++ u) := Taking.text_eq_read.1 h
    rw [← List.append_assoc, List.append_cancel_right_eq] at htext
    exact Taking.text_eq_read.2 htext
  | range first last => exact Taking.char_of_append h
  | ref name =>
    obtain rfl | rfl := hp
    · exact Taking.char_of_append (f := (·.toNat < 0x80)) h
    · exact Taking.char_of_append (f := fun _ => true) h
  | notAhead body =>
    obtain rfl := hp
    obtain ⟨hts, hrefused⟩ := Taking.notAhead_eq_read.1 h
    exact Taking.notAhead_eq_read.2
      ⟨List.append_cancel_right hts, Taking.char_refused_of_append hrefused⟩
  | optional body ih => exact h.imp List.append_cancel_right (ih hp)
  | star body ih =>
    obtain ⟨v, hv⟩ : ∃ v, v = s ++ u := ⟨_, rfl⟩
    have hstar : ReflTransGen body.Yields (s ++ u) (t ++ u) := h
    rw [← hv] at hstar
    induction hstar using ReflTransGen.head_induction_on generalizing s with
    | refl => exact List.append_cancel_right hv ▸ .refl
    | head hstep hrest ihs =>
      obtain ⟨w, rfl⟩ := (List.suffix_append t u).trans (suffix (p := star body) hrest)
      exact .head (ih hp (hv ▸ hstep)) (ihs hrest rfl)
  | seq left right ihl ihr =>
    obtain ⟨v, hv, ht⟩ := h
    obtain ⟨w, rfl⟩ := (List.suffix_append t u).trans ht.suffix
    exact ⟨w, ihl hp.1 hv, ihr hp.2 ht⟩
  | choice left right ihl ihr => exact h.imp (ihl hp.1) (ihr hp.2)
  | anyCase | peek | push | ahead | upTo | undoing => exact hp.elim

end Yields

/-! ## Lists -/

/-- Separators may stand before items or behind them. -/
theorem yields_list {item separator : Plan}
    (h : (seq item (star (seq separator item))).Yields s t) :
    (seq (star (seq item separator)) item).Yields s t := by
  obtain ⟨u, hitem, hrest⟩ := h
  induction hrest with
  | refl => exact ⟨s, .refl, hitem⟩
  | tail _ hstep ih =>
    obtain ⟨v, hfront, hlast⟩ := ih
    obtain ⟨w, hseparator, hnext⟩ := hstep
    exact ⟨w, hfront.tail ⟨_, hlast, hseparator⟩, hnext⟩

/-- **Making lists adds nothing** to what a plain plan can take. -/
theorem yields_of_listed (hp : p.IsPlain) (h : p.listed.Yields s t) : p.Yields s t := by
  induction p generalizing s t with
  | optional body ih => exact h.imp_right (ih hp)
  | star body ih => exact ReflTransGen.mono (fun _ _ => ih hp) _ _ h
  | choice left right ihl ihr => exact h.imp (ihl hp.1) (ihr hp.2)
  | seq left right ihl ihr =>
    have hparts : (seq left.listed right.listed).Yields s t → (seq left right).Yields s t :=
      fun ⟨u, hu, ht⟩ => ⟨u, ihl hp.1 hu, ihr hp.2 ht⟩
    refine hparts ?_
    rw [listed, list.eq_def] at h
    split at h
    · rename_i item separator hleft
      split at h
      · rename_i hitem
        rw [hleft, ← hitem]
        rw [← hitem] at h
        exact yields_list h
      · exact h
    · exact h
  | notAhead body =>
    obtain rfl := hp
    exact h
  | text | range | ref | anyCase | peek | push | ahead | upTo | undoing => exact h

/-! ## Rows -/

theorem yields_row_cons {ps : List Plan} (h : (row (p :: ps)).Yields s t) :
    ∃ u, p.Yields s u ∧ (row ps).Yields u t :=
  (Tracks.row_cons p ps).yields s t h

end Plan

/-- **What a token takes is what its expression can take.** -/
theorem Expr.IsLexical.yields_of_routine {rules : List Rule} {r : Rule} (h : r.body.IsLexical)
    (hascii : ∀ n, ruleTexts? rules n "ASCII" = none) {s t : List Char}
    (hread : (r.routine rules).plan.takes s = .read t) :
    (r.body.plan fun _ => none).Yields s t := by
  obtain ⟨p, ⟨htracks, hplain⟩, hlast⟩ := Rule.exists_listed
    (P := fun p => (r.body.plan fun _ => none).Tracks p ∧ p.IsPlain) hascii
    (fun stops? hstops => ⟨h.plan_eq hstops ▸ h.tracks_rightNested hstops,
      h.rightNested.isPlain_plan hstops⟩)
    (fun p ⟨ht, hp⟩ => ⟨ht.trans (.joined p), hp.joined⟩)
    fun tight n p ⟨ht, hp⟩ => ⟨ht.trans (.factoredTo tight n p), hp.factoredTo tight n⟩
  rw [hlast] at hread
  exact htracks.yields s t (Plan.yields_of_listed hplain (Plan.yields_of_takes hread))

end GrammarKit.Peg
