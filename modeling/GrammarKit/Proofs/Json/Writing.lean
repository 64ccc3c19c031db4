import GrammarKit.Json.Reader
import GrammarKit.Json.Writer
import GrammarKit.Text.Position
import Mathlib.Tactic.IntervalCases

/-!
# Structured values are read as they are written

A value without numbers is read back from its text, whatever stands behind it: a string by its
characters, each of which is escaped in a way of its own, an array or object by its items.

* `stringTail_renderText`: strings.
* `Json.IsTextual`: values without numbers.
* **`value_render`**, **`parse?_render`**: the text of such a value is read as the value.
-/

namespace GrammarKit.Json

open Text

/-! ## Strings -/

/-- The characters of a string as they are written. -/
def escaped (cs : List Char) : List Char := cs.flatMap fun c => (renderChar c).toList

theorem renderText_eq (s : String) :
    (renderText s).toList = '"' :: (escaped s.toList ++ ['"']) := by
  have hfoldl (cs : List Char) (acc : String) :
      (cs.foldl (fun acc c => acc ++ renderChar c) acc).toList = acc.toList ++ escaped cs := by
    induction cs generalizing acc with
    | nil => simp [escaped]
    | cons c cs ih => simp [ih, escaped]
  rw [renderText, String.toList_append, hfoldl]
  rfl

/-- The digits of a control character are those of its number. -/
theorem codeEscape_control {n : Nat} (hn : n < 0x20) (s : List Char) :
    codeEscape ("00".toList ++ (if n < 0x10 then "0" else "").toList ++ Nat.toDigits 16 n ++ s) =
      some (Char.ofNat n, s) := by
  interval_cases n <;> rfl

/-- An escape stands for its character. -/
theorem stringBody_escape {n : Nat} {c : Char} {s t : List Char} (h : escape s = some (c, t)) :
    stringBody (n + 1) ('\\' :: s) = (stringBody n t).map fun (cs, s) => (c :: cs, s) := by
  rw [stringBody, if_neg (by decide), if_pos rfl, h]
  cases ht : stringBody n t <;> simp [ht]

/-- A character is read as it is written. -/
theorem stringBody_renderChar (n : Nat) (c : Char) (s : List Char) :
    stringBody (n + 1) ((renderChar c).toList ++ s) =
      (stringBody n s).map fun (cs, s) => (c :: cs, s) := by
  by_cases hquote : c = '"'
  · subst hquote
    exact stringBody_escape rfl
  by_cases hslash : c = '\\'
  · subst hslash
    exact stringBody_escape rfl
  by_cases hline : c = '\n'
  · subst hline
    exact stringBody_escape rfl
  by_cases hreturn : c = '\r'
  · subst hreturn
    exact stringBody_escape rfl
  by_cases htab : c = '\t'
  · subst htab
    exact stringBody_escape rfl
  rw [renderChar, if_neg hquote, if_neg hslash, if_neg hline, if_neg hreturn, if_neg htab]
  by_cases hcontrol : c.toNat < 0x20
  -- A control character without a letter of its own is written by its number.
  · have hcode := codeEscape_control hcontrol s
    rw [Char.ofNat_toNat] at hcode
    rw [if_pos hcontrol, String.toList_append, String.toList_append]
    rw [← String.toList_ofList (l := Nat.toDigits 16 c.toNat)] at hcode
    exact stringBody_escape hcode
  · have hc : c.toString.toList ++ s = c :: s := by simp [Char.toString]
    rw [if_neg hcontrol, hc, stringBody, if_neg hquote, if_neg hslash, if_neg hcontrol]
    cases stringBody n s <;> rfl

theorem stringBody_escaped {n : Nat} {cs : List Char} (hn : cs.length < n) (s : List Char) :
    stringBody n (escaped cs ++ '"' :: s) = some (cs, s) := by
  induction cs generalizing n with
  | nil =>
    obtain ⟨n, rfl⟩ := Nat.exists_eq_succ_of_ne_zero (Nat.ne_of_gt hn)
    rfl
  | cons c cs ih =>
    obtain ⟨n, rfl⟩ := Nat.exists_eq_succ_of_ne_zero (Nat.ne_of_gt (Nat.lt_of_le_of_lt (Nat.zero_le _) hn))
    have hcs : escaped (c :: cs) ++ '"' :: s = (renderChar c).toList ++ (escaped cs ++ '"' :: s) := by
      simp [escaped]
    rw [hcs, stringBody_renderChar, ih (by simpa using hn)]
    rfl

/-- No character is written as nothing: it would be read where nothing stands. -/
theorem renderChar_ne_nil (c : Char) : (renderChar c).toList ≠ [] := by
  intro hnil
  have hread := stringBody_renderChar 1 c ['"']
  rw [hnil] at hread
  cases hread

theorem length_le_escaped (cs : List Char) : cs.length ≤ (escaped cs).length :=
  length_le_flatMap fun c _ => List.length_pos_iff.2 (renderChar_ne_nil c)

/-- **A string is read as it is written.** -/
theorem stringTail_renderText (s : String) (rest : List Char) :
    stringTail (escaped s.toList ++ '"' :: rest) = some (s, rest) := by
  have hlength := length_le_escaped s.toList
  rw [stringTail, stringBody_escaped (by simp; omega)]
  simp

/-! ## Values -/

mutual

/-- **Values without numbers.** -/
def IsTextual : Json → Prop
  | null | bool _ | string _ => True
  | number _ => False
  | array items => AllTextual items
  | object members => MembersTextual members

/-- Items without numbers. -/
def AllTextual : List Json → Prop
  | [] => True
  | j :: items => j.IsTextual ∧ AllTextual items

/-- Members without numbers. -/
def MembersTextual : List (String × Json) → Prop
  | [] => True
  | (_, j) :: members => j.IsTextual ∧ MembersTextual members

end

theorem skipBlanks_cons {c : Char} (h : isBlank c = false) (s : List Char) :
    skipBlanks (c :: s) = c :: s := by
  rw [skipBlanks, List.dropWhile_cons, h]
  rfl

/-- The text of a value starts with no blank, and with no closing bracket. -/
theorem exists_render_eq_cons {j : Json} (hj : j.IsTextual) :
    ∃ c s, j.render.toList = c :: s ∧ isBlank c = false ∧ c ≠ ']' := by
  cases j with
  | null => exact ⟨'n', _, rfl, by decide, by decide⟩
  | bool b => cases b <;> exact ⟨_, _, rfl, by decide, by decide⟩
  | number n => exact hj.elim
  | string s => exact ⟨'"', _, renderText_eq s, by decide, by decide⟩
  | array items =>
    exact ⟨'[', _, by rw [render, String.toList_append, String.toList_append]; rfl, by decide, by decide⟩
  | object members =>
    exact ⟨'\x7b', _, by rw [render, String.toList_append, String.toList_append]; rfl, by decide,
      by decide⟩

/-- Texts that each have a comma before them. -/
def commaTexts (texts : List String) : List Char := texts.flatMap fun t => ',' :: t.toList

theorem toList_join_cons (t : String) (texts : List String) :
    (",".intercalate (t :: texts)).toList = t.toList ++ commaTexts texts := by
  rw [String.toList_intercalate]
  induction texts generalizing t with
  | nil => simp [commaTexts]
  | cons t' texts ih =>
    rw [List.map_cons, List.map_cons, List.intercalate_cons_cons, ← List.map_cons, ih]
    simp [commaTexts]

theorem length_le_commaTexts {t : String} {texts : List String} (h : t ∈ texts) :
    t.toList.length ≤ (commaTexts texts).length := by
  obtain ⟨front, back, rfl⟩ := List.append_of_mem h
  simp [commaTexts]
  omega

theorem length_commaTexts (texts : List String) : texts.length ≤ (commaTexts texts).length :=
  length_le_flatMap fun _ _ => Nat.succ_pos _

theorem renderItems_eq (js : List Json) : renderItems js = js.map render := by
  induction js with
  | nil => rfl
  | cons j js ih => rw [renderItems, ih, List.map_cons]

/-- The text of a member. -/
def renderMember (e : String × Json) : String := renderText e.1 ++ ":" ++ e.2.render

theorem renderMembers_eq (ms : List (String × Json)) : renderMembers ms = ms.map renderMember := by
  induction ms with
  | nil => rfl
  | cons e ms ih => rw [renderMembers, ih, List.map_cons, renderMember]

theorem toList_render_array (j : Json) (js : List Json) :
    (array (j :: js)).render.toList =
      '[' :: (j.render.toList ++ (commaTexts (js.map render) ++ [']'])) := by
  rw [render, renderItems_eq, List.map_cons, String.toList_append, String.toList_append,
    toList_join_cons]
  simp

theorem toList_render_object (e : String × Json) (ms : List (String × Json)) :
    (object (e :: ms)).render.toList =
      '\x7b' :: ((renderMember e).toList ++ (commaTexts (ms.map renderMember) ++ ['\x7d'])) := by
  rw [render, renderMembers_eq, List.map_cons, String.toList_append, String.toList_append,
    toList_join_cons]
  simp

/-- Items are read as they are written, if each of them is. -/
theorem items_render {item : Reader Json} {j : Json} {js : List Json}
    (h : ∀ i ∈ j :: js, ∀ rest, item (i.render.toList ++ rest) = some (i, rest)) {k : Nat}
    (hk : js.length < k) (rest : List Char) :
    items item k (j.render.toList ++ (commaTexts (js.map render) ++ ']' :: rest)) =
      some (j :: js, rest) := by
  induction js generalizing j k with
  | nil =>
    obtain ⟨k, rfl⟩ := Nat.exists_eq_succ_of_ne_zero (Nat.pos_iff_ne_zero.1 hk)
    rw [items, h j List.mem_cons_self]
    rfl
  | cons i js ih =>
    obtain ⟨k, rfl⟩ : ∃ l, k = l + 1 := ⟨k - 1, by omega⟩
    obtain ⟨hj, hrest⟩ := List.forall_mem_cons.1 h
    have hcomma : commaTexts ((i :: js).map render) ++ ']' :: rest =
        ',' :: (i.render.toList ++ (commaTexts (js.map render) ++ ']' :: rest)) := by
      simp [commaTexts]
    have htail := ih hrest (Nat.succ_lt_succ_iff.1 hk)
    rw [hcomma, items, hj]
    simp only [Option.bind_eq_bind, Option.bind_some, skipBlanks_cons (show isBlank ',' = false by decide), htail]
    rfl

/-- Members are read as they are written, if each of their values is. -/
theorem membersTail_render {member : Reader Json} {e : String × Json} {ms : List (String × Json)}
    (h : ∀ i ∈ e :: ms, ∀ rest, member (i.2.render.toList ++ rest) = some (i.2, rest)) {k : Nat}
    (hk : ms.length < k) (rest : List Char) :
    membersTail stringTail (fun key s => (member s).map fun (j, s) => ([(key, j)], s)) k
      ((renderMember e).toList ++ (commaTexts (ms.map renderMember) ++ '\x7d' :: rest)) =
      some (e :: ms, rest) := by
  have hmember (e : String × Json) (rest : List Char) : (renderMember e).toList ++ rest =
      '"' :: (escaped e.1.toList ++ '"' :: (':' :: (e.2.render.toList ++ rest))) := by
    rw [renderMember, String.toList_append, String.toList_append, renderText_eq]
    simp
  induction ms generalizing e k with
  | nil =>
    obtain ⟨k, rfl⟩ := Nat.exists_eq_succ_of_ne_zero (Nat.pos_iff_ne_zero.1 hk)
    rw [hmember, membersTail]
    simp only [skipBlanks_cons (show isBlank '"' = false by decide), Option.bind_eq_bind,
      stringTail_renderText, Option.bind_some, skipBlanks_cons (show isBlank ':' = false by decide),
      h e List.mem_cons_self, Option.map_some]
    rfl
  | cons i ms ih =>
    obtain ⟨k, rfl⟩ : ∃ l, k = l + 1 := ⟨k - 1, by omega⟩
    obtain ⟨he, hrest⟩ := List.forall_mem_cons.1 h
    have hcomma : commaTexts ((i :: ms).map renderMember) ++ '\x7d' :: rest =
        ',' :: ((renderMember i).toList ++ (commaTexts (ms.map renderMember) ++ '\x7d' :: rest)) := by
      simp [commaTexts]
    have htail := ih hrest (Nat.succ_lt_succ_iff.1 hk)
    rw [hmember, hcomma, membersTail]
    simp only [skipBlanks_cons (show isBlank '"' = false by decide), Option.bind_eq_bind,
      stringTail_renderText, Option.bind_some, skipBlanks_cons (show isBlank ':' = false by decide),
      he, Option.map_some, skipBlanks_cons (show isBlank ',' = false by decide), htail]
    rfl

/-- The text of a member starts with a quote. -/
theorem exists_renderMember_eq_cons (e : String × Json) :
    ∃ s, (renderMember e).toList = '"' :: s := by
  rw [renderMember, String.toList_append, String.toList_append, renderText_eq]
  exact ⟨_, rfl⟩

/-- A value in brackets is read by its items. -/
theorem value_array {n : Nat} {j : Json} {js : List Json} (hj : j.IsTextual)
    (h : ∀ i ∈ j :: js, ∀ rest, value stringTail n (i.render.toList ++ rest) = some (i, rest))
    (rest : List Char) :
    value stringTail (n + 1) ((array (j :: js)).render.toList ++ rest) =
      some (array (j :: js), rest) := by
  have htext : (array (j :: js)).render.toList ++ rest =
      '[' :: (j.render.toList ++ (commaTexts (js.map render) ++ ']' :: rest)) := by
    rw [toList_render_array]
    simp
  have hlength : js.length < (j.render.toList ++ (commaTexts (js.map render) ++ ']' :: rest)).length := by
    have := length_commaTexts (js.map render)
    rw [List.length_map] at this
    simp only [List.length_append, List.length_cons]
    omega
  have hitems := items_render h hlength rest
  obtain ⟨c, s, hcs, hblank, hc⟩ := exists_render_eq_cons hj
  rw [htext, value, skipBlanks_cons (by decide)]
  rw [hcs, List.cons_append] at hitems ⊢
  simp only [skipBlanks_cons hblank]
  split
  · rename_i heq
    exact absurd (List.cons.inj heq).1 hc
  · rw [hitems]
    rfl

/-- A value in braces is read by its members. -/
theorem value_object {n : Nat} {e : String × Json} {ms : List (String × Json)}
    (h : ∀ i ∈ e :: ms, ∀ rest, value stringTail n (i.2.render.toList ++ rest) = some (i.2, rest))
    (rest : List Char) :
    value stringTail (n + 1) ((object (e :: ms)).render.toList ++ rest) =
      some (object (e :: ms), rest) := by
  have htext : (object (e :: ms)).render.toList ++ rest =
      '\x7b' :: ((renderMember e).toList ++ (commaTexts (ms.map renderMember) ++ '\x7d' :: rest)) := by
    rw [toList_render_object]
    simp
  have hlength : ms.length <
      ((renderMember e).toList ++ (commaTexts (ms.map renderMember) ++ '\x7d' :: rest)).length := by
    have := length_commaTexts (ms.map renderMember)
    rw [List.length_map] at this
    simp only [List.length_append, List.length_cons]
    omega
  have hmembers := membersTail_render h hlength rest
  obtain ⟨s, hs⟩ := exists_renderMember_eq_cons e
  rw [htext, value, skipBlanks_cons (by decide)]
  rw [hs, List.cons_append] at hmembers ⊢
  have hobject : objectTail stringTail
      (fun key s => (value stringTail n s).map fun (j, s) => ([(key, j)], s))
      ('"' :: (s ++ (commaTexts (ms.map renderMember) ++ '\x7d' :: rest))) =
        some (object (e :: ms), rest) := by
    rw [objectTail.eq_def, skipBlanks_cons (by decide)]
    simp only
    rw [if_neg (by decide), hmembers]
    rfl
  exact hobject

mutual

/-- **A value is read as it is written**, through as many levels as its text has characters. -/
theorem value_render (j : Json) (hj : j.IsTextual) {n : Nat} (hn : j.render.toList.length ≤ n)
    (rest : List Char) : value stringTail n (j.render.toList ++ rest) = some (j, rest) := by
  obtain ⟨n, rfl⟩ : ∃ k, n = k + 1 := by
    obtain ⟨c, s, hcs, -⟩ := exists_render_eq_cons hj
    rw [hcs, List.length_cons] at hn
    exact ⟨n - 1, by omega⟩
  cases j with
  | null => rfl
  | bool b => cases b <;> rfl
  | number k => exact hj.elim
  | string s =>
    have htext : (render (string s)).toList ++ rest = '"' :: (escaped s.toList ++ '"' :: rest) := by
      rw [render, renderText_eq]
      simp
    rw [htext, value, skipBlanks_cons (by decide)]
    simp only
    rw [stringTail_renderText]
    rfl
  | array items =>
    have hvalues := values_render items hj
    cases items with
    | nil => rfl
    | cons j items =>
      rw [toList_render_array, List.length_cons, List.length_append, List.length_append] at hn
      refine value_array hj.1 (fun i hi => hvalues i hi ?_) rest
      rcases List.mem_cons.1 hi with rfl | hi
      · omega
      · have := length_le_commaTexts (List.mem_map_of_mem (f := render) hi)
        omega
  | object members =>
    have hvalues := memberValues_render members hj
    cases members with
    | nil => rfl
    | cons e members =>
      rw [toList_render_object, List.length_cons, List.length_append, List.length_append] at hn
      have hvalue (i : String × Json) : i.2.render.toList.length ≤ (renderMember i).toList.length := by
        rw [renderMember, String.toList_append, List.length_append]
        exact Nat.le_add_left _ _
      refine value_object (fun i hi => hvalues i hi ?_) rest
      have hi' := hvalue i
      rcases List.mem_cons.1 hi with rfl | hi
      · omega
      · have := length_le_commaTexts (List.mem_map_of_mem (f := renderMember) hi)
        omega
termination_by sizeOf j

theorem values_render (js : List Json) (hjs : AllTextual js) (j : Json) (hj : j ∈ js) {n : Nat}
    (hn : j.render.toList.length ≤ n) (rest : List Char) :
    value stringTail n (j.render.toList ++ rest) = some (j, rest) := by
  cases js with
  | nil => cases hj
  | cons i js =>
    rcases List.mem_cons.1 hj with rfl | hj
    · exact value_render j hjs.1 hn rest
    · exact values_render js hjs.2 j hj hn rest
termination_by sizeOf js

theorem memberValues_render (ms : List (String × Json)) (hms : MembersTextual ms)
    (e : String × Json) (he : e ∈ ms) {n : Nat} (hn : e.2.render.toList.length ≤ n)
    (rest : List Char) : value stringTail n (e.2.render.toList ++ rest) = some (e.2, rest) := by
  match ms, hms, he with
  | (key, j) :: ms, hms, he =>
    rcases List.mem_cons.1 he with rfl | he
    · exact value_render j hms.1 hn rest
    · exact memberValues_render ms hms.2 e he hn rest
termination_by sizeOf ms

end

/-- **The text of a value is read as the value.** -/
theorem parse?_render {j : Json} (hj : j.IsTextual) : parse? j.render = some j := by
  have hvalue := value_render j hj (Nat.le_succ _) []
  rw [List.append_nil] at hvalue
  rw [parse?, parseOutline?]
  simp only [outlined]
  rw [hvalue]
  rfl

end GrammarKit.Json
