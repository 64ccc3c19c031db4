import GrammarKit.Proofs.Notation.Spelling
import GrammarKit.Proofs.Text.Position

/-!
# Where readers stop

Whether a reader finds what it is after or not, it leaves the end of its text. So a failure stands
at a place of the text that is read, however far the readers in it went and whatever was given back,
and the position in its report is exact.

* `left`: what a result leaves of a text.
* **`StaysIn`**: a reader leaves the end of its text, with a lemma per combinator.
* `staysIn_header`, `staysIn_definition`: the parts of a model.
* `suffix_of_modelText`: where the reading of a whole text stops.
* **`Model.parse_malformed_exact`**: the positions that are reported.
-/

namespace GrammarKit.Notation

open Text

variable {α β : Type}

/-- What a result leaves of a text: what is behind the value, or what the reader stopped at. -/
def left : Except Failure (α × List Char) → List Char
  | .ok (_, t) => t
  | .error f => f.rest

/-- **A reader leaves the end of its text**, whether it succeeds or fails. -/
def StaysIn (r : Reader α) : Prop := ∀ s, left (r s) <:+ s

/-! ## Combinators -/

theorem left_mapError (x : Except Failure (α × List Char)) (f : Failure → Failure)
    (hf : ∀ e, (f e).rest = e.rest) : left (x.mapError f) = left x := by
  cases x with
  | error e => exact hf e
  | ok a => rfl

theorem left_map (x : Except Failure (α × List Char)) (f : α → β) :
    left (x.map fun (a, s) => (f a, s)) = left x := by
  cases x <;> rfl

/-- One reader behind another. -/
theorem left_bind {x : Except Failure (α × List Char)}
    {f : α × List Char → Except Failure (β × List Char)} {s : List Char} (hx : left x <:+ s)
    (hf : ∀ a t, left (f (a, t)) <:+ t) : left (x >>= f) <:+ s := by
  cases x with
  | error e => exact hx
  | ok a => exact (hf a.1 a.2).trans hx

/-- Where a reader with another one behind it fails. -/
theorem suffix_of_bind_error {x : Except Failure (α × List Char)}
    {f : α × List Char → Except Failure β} {e : Failure} {s : List Char}
    (h : (x >>= f) = .error e) (hx : left x <:+ s)
    (hf : ∀ a t, f (a, t) = .error e → e.rest <:+ t) : e.rest <:+ s := by
  cases x with
  | error e' => cases h; exact hx
  | ok a => exact (hf a.1 a.2 h).trans hx

namespace StaysIn

variable {r : Reader α} (h : StaysIn r)

include h

theorem lexeme : StaysIn (lexeme r) := fun s => (h (trivia s)).trans (skips_trivia s).suffix

theorem orCommit : StaysIn r.orCommit := by
  intro s
  rw [Reader.orCommit, left_mapError (r s) _ fun f => by rfl]
  exact h s

theorem hinting (hints : List Hint) : StaysIn (r.hinting hints) := by
  intro s
  rw [Reader.hinting, left_mapError (r s) _ fun f => by rfl]
  exact h s

theorem optional : StaysIn r.optional := by
  intro s
  have hs := h s
  unfold Reader.optional
  split
  · rename_i hok
    rwa [hok] at hs
  · rename_i hfail
    split
    · rwa [hfail] at hs
    · exact List.suffix_refl s

theorem many (n : Nat) : StaysIn (Reader.many r n) := by
  induction n with
  | zero => exact List.suffix_refl
  | succ n ih =>
    intro s
    have hs := h s
    unfold Reader.many
    split
    · rename_i a t hok
      rw [hok] at hs
      refine (left_bind (ih t) fun as u => ?_).trans hs
      exact List.suffix_refl u
    · rename_i hfail
      split
      · rwa [hfail] at hs
      · exact List.suffix_refl s

end StaysIn

/-! ## Words -/

theorem staysIn_sign (c : Char) : StaysIn (sign c) := by
  intro s
  cases s with
  | nil => exact List.suffix_refl []
  | cons d s =>
    rw [Notation.sign]
    split
    · exact List.suffix_cons d s
    · exact List.suffix_refl _

theorem staysIn_word : StaysIn word := by
  intro s
  cases s with
  | nil => exact List.suffix_refl []
  | cons c s =>
    rw [word]
    split
    · exact (List.dropWhile_suffix _).trans (List.suffix_cons c s)
    · exact List.suffix_refl _

theorem staysIn_keyword (w : String) : StaysIn (keyword w) := by
  intro s
  unfold keyword
  split
  · exact List.suffix_refl s
  · rename_i rest hrest
    have hsuffix : rest <:+ s := eq_append_of_dropWord? hrest ▸ List.suffix_append _ rest
    split <;> exact hsuffix

/-! ## Quoted texts -/

/-- A number that names no character is reported where the escape started. -/
theorem left_codePoint {whole s : List Char} (h : s <:+ whole) :
    left (codePoint whole s) <:+ whole := by
  cases s with
  | nil => exact h
  | cons c s =>
    have hs := (List.suffix_cons c s).trans h
    rw [codePoint]
    split
    · have hdrop (n : Nat) := (List.drop_suffix n s).trans hs
      simp only
      split
      · exact hs
      · split
        · rename_i d t hrest
          have ht := (List.suffix_cons d t).trans (hrest ▸ hdrop _)
          split
          · split
            · exact ht
            · exact List.suffix_refl whole
          · exact hdrop _
        · exact hdrop _
    · exact h

theorem staysIn_escape : StaysIn escape := by
  refine StaysIn.hinting (fun s => ?_) _
  cases s with
  | nil => exact List.suffix_refl []
  | cons c s =>
    rw [escape.escaped]
    split
    · exact List.suffix_cons c s
    · split
      · exact left_codePoint (List.suffix_cons c s)
      · exact List.suffix_refl _

theorem staysIn_quotedBody (n : Nat) : StaysIn (quotedBody n) := by
  induction n with
  | zero => exact List.suffix_refl
  | succ n ih =>
    intro s
    cases s with
    | nil => exact List.suffix_refl []
    | cons c s =>
      have hs := List.suffix_cons c s
      unfold quotedBody
      split
      · exact hs
      · split
        · refine left_bind ((staysIn_escape.orCommit s).trans hs) fun d t => ?_
          exact left_bind (ih t) fun _ u => List.suffix_refl u
        · exact left_bind ((ih s).trans hs) fun _ t => List.suffix_refl t

theorem staysIn_quoted : StaysIn quoted := fun s =>
  left_bind (staysIn_sign '"' s) fun _ t =>
    left_bind (staysIn_quotedBody _ t) fun _ u => List.suffix_refl u

theorem staysIn_slashedBody (n : Nat) : StaysIn (slashedBody n) := by
  induction n with
  | zero => exact List.suffix_refl
  | succ n ih =>
    intro s
    cases s with
    | nil => exact List.suffix_refl []
    | cons c s =>
      have hs := List.suffix_cons c s
      unfold slashedBody
      split
      · exact List.suffix_refl _
      · split
        · exact hs
        · split
          · cases s with
            | nil => exact List.nil_suffix
            | cons d s =>
              have hd := (List.suffix_cons d s).trans hs
              exact left_bind ((ih s).trans hd) fun _ t => List.suffix_refl t
          · exact left_bind ((ih s).trans hs) fun _ t => List.suffix_refl t

theorem staysIn_slashed : StaysIn slashed := fun s =>
  left_bind (staysIn_sign '/' s) fun _ t =>
    left_bind (staysIn_slashedBody _ t) fun _ u => List.suffix_refl u

theorem staysIn_pattern : StaysIn pattern := by
  intro s
  unfold pattern
  split
  · rw [left_map]
    exact staysIn_quoted _
  · rw [left_map]
    exact staysIn_slashed s

/-! ## The header -/

theorem staysIn_semicolon : StaysIn semicolon := (staysIn_sign ';').lexeme.orCommit.hinting _

theorem staysIn_versionClause : StaysIn versionClause := fun s =>
  left_bind ((staysIn_keyword "version").lexeme s) fun _ t =>
    staysIn_quoted.lexeme.orCommit.hinting _ t

theorem staysIn_startClause : StaysIn startClause := fun s =>
  left_bind ((staysIn_keyword "start").lexeme s) fun _ t => staysIn_word.lexeme t

theorem staysIn_header : StaysIn header := by
  intro s
  refine left_bind ((staysIn_keyword "grammar").hinting _ s) fun _ s => ?_
  refine left_bind (staysIn_word.lexeme.orCommit.hinting _ s) fun name s => ?_
  refine left_bind (staysIn_versionClause.optional s) fun version s => ?_
  refine left_bind (staysIn_startClause.orCommit.hinting _ s) fun start s => ?_
  exact left_bind (staysIn_semicolon s) fun _ s => List.suffix_refl s

/-! ## Definitions -/

theorem staysIn_definitionName : StaysIn definitionName := by
  refine StaysIn.orCommit fun s => ?_
  refine left_bind (staysIn_word.lexeme.hinting _ s) fun name s => ?_
  exact left_bind ((staysIn_sign '=').lexeme.hinting _ s) fun _ s => List.suffix_refl s

theorem staysIn_nextMember : StaysIn nextMember := fun s =>
  left_bind ((staysIn_sign '|').lexeme s) fun _ t => staysIn_word.lexeme t

theorem staysIn_members : StaysIn members := fun s =>
  left_bind (staysIn_word.lexeme.orCommit.hinting _ s) fun _ t =>
    left_bind (staysIn_nextMember.many _ t) fun _ u => List.suffix_refl u

theorem staysIn_elementNode : StaysIn elementNode := fun s =>
  left_bind ((staysIn_sign ':').lexeme s) fun _ t => staysIn_word.lexeme.orCommit.hinting _ t

theorem staysIn_element : StaysIn element := fun s =>
  left_bind (staysIn_word.lexeme s) fun _ t =>
    left_bind (staysIn_elementNode.optional t) fun _ u => List.suffix_refl u

/-- A definition: its key word, its name, its parts and a semicolon. -/
theorem left_definition {parts : Reader α} (hparts : StaysIn parts) (w : String)
    (f : α → Body) (s : List Char) :
    left (do
      let (_, s) ← keyword w s
      let (name, s) ← definitionName s
      let (a, s) ← parts s
      let (_, s) ← semicolon s
      return ((name, f a), s)) <:+ s := by
  refine left_bind (staysIn_keyword w s) fun _ s => ?_
  refine left_bind (staysIn_definitionName s) fun name s => ?_
  refine left_bind (hparts s) fun a s => ?_
  exact left_bind (staysIn_semicolon s) fun _ s => List.suffix_refl s

theorem staysIn_tokenDefinition : StaysIn tokenDefinition :=
  left_definition (staysIn_pattern.lexeme.orCommit.hinting _) "token" .token

theorem staysIn_unionDefinition : StaysIn unionDefinition :=
  left_definition staysIn_members "union" .union

theorem staysIn_deductionDefinition : StaysIn deductionDefinition :=
  left_definition (fun s => staysIn_element.many s.length s) "deduction" .deduction

theorem staysIn_definitionBody : StaysIn definitionBody := by
  intro s
  have htoken := staysIn_tokenDefinition s
  have hunion := staysIn_unionDefinition s
  unfold definitionBody
  split
  · rename_i hfail
    split
    · rwa [hfail] at htoken
    · split
      · rename_i hfail'
        split
        · rwa [hfail'] at hunion
        · exact staysIn_deductionDefinition s
      · exact hunion
  · exact htoken

theorem suffix_docLines (n : Nat) (s : List Char) : (docLines n s).2 <:+ s := by
  induction n generalizing s with
  | zero => exact List.suffix_refl s
  | succ n ih =>
    have hblanks := List.dropWhile_suffix isBlank (l := s)
    rw [docLines]
    split
    · rename_i t hfront
      split
      · rename_i line rest hline
        obtain ⟨rfl, -⟩ := exists_of_restOfLine? hline
        have hrest : rest <:+ '/' :: '/' :: '/' :: (line ++ rest) :=
          List.suffix_append ('/' :: '/' :: '/' :: line) rest
        have hnext := (ih (rest.dropWhile isBlank)).trans (List.dropWhile_suffix _)
        exact (hnext.trans hrest).trans (hfront ▸ hblanks)
      · exact List.suffix_refl s
    · exact List.suffix_refl s

/-- What stands behind blanks, a description and further blanks. -/
theorem suffix_front (s : List Char) : trivia (description (trivia s)).2 <:+ s := by
  have hlines : (description (trivia s)).2 <:+ trivia s := suffix_docLines _ (trivia s)
  exact ((skips_trivia _).suffix.trans hlines).trans (skips_trivia s).suffix

theorem staysIn_definition : StaysIn definition := by
  intro s
  have hbody := staysIn_definitionBody.hinting [.part "node definition", .expected "token",
    .expected "union", .expected "deduction"] (trivia (description (trivia s)).2)
  refine left_bind (hbody.trans (suffix_front s)) fun _ t => ?_
  exact List.suffix_refl t

/-- **Where the reading of a text fails** is a place of the text. -/
theorem suffix_of_modelText {s : List Char} {f : Failure} (h : modelText s = .error f) :
    f.rest <:+ s := by
  have hheader := (staysIn_header (trivia (description (trivia s)).2)).trans (suffix_front s)
  refine suffix_of_bind_error h hheader fun head t h => ?_
  refine suffix_of_bind_error h (staysIn_definition.many _ t) fun definitions u h => ?_
  simp only at h
  split at h
  · cases h
  · cases h
    exact (skips_trivia u).suffix

end GrammarKit.Notation

/-! ## Reported positions -/

namespace GrammarKit

open Notation Text

theorem exists_of_malformed {source : String} {p : Position} {detail : String}
    (h : Model.parse source = .error (.malformed p detail)) :
    ∃ f, modelText source.toList = .error f ∧ p = .before source.toList f.rest := by
  unfold Model.parse at h
  simp only at h
  split at h
  · rename_i f hf
    cases h
    exact ⟨f, hf, rfl⟩
  · split at h <;> cases h

/-- **Reported positions are exact.** A malformed text is cut between two characters, right where
the reader stopped. Line and column are those of the cut, no other boundary of the text has them,
and they lead back to the offset. -/
theorem Model.parse_malformed_exact {source : String} {p : Position} {detail : String}
    (h : Model.parse source = .error (.malformed p detail)) :
    (∃ f, modelText source.toList = .error f ∧
      source.toList = upToByte p.offset source.toList ++ f.rest) ∧
    (⟨p.offset⟩ : String.Pos.Raw).IsValid source ∧ p.offset ≤ source.utf8ByteSize ∧
    p.IsBehind (upToByte p.offset source.toList) ∧
    (∀ b : String.Pos.Raw, b.IsValid source →
      (Position.atByte source.toList b.byteIdx).line = p.line →
      (Position.atByte source.toList b.byteIdx).column = p.column → b.byteIdx = p.offset) ∧
    offsetOf? source.toList p.line p.column = some p.offset := by
  obtain ⟨f, hf, hp⟩ := exists_of_malformed h
  obtain ⟨front, hsource⟩ := suffix_of_modelText hf
  have hafter : p = .after front := by rw [hp, ← hsource, Position.before_eq]
  have hfront : upToByte p.offset source.toList = front := by
    rw [hafter, ← hsource]
    exact upToByte_append front f.rest
  have hvalid : (⟨p.offset⟩ : String.Pos.Raw).IsValid source :=
    isValid_iff.2 ⟨front, f.rest, hsource.symm, by rw [hafter]; rfl⟩
  have hback : offsetOf? source.toList p.line p.column = some p.offset :=
    offsetOf?_eq_some_iff.2 ⟨front, f.rest, hsource.symm, hafter.symm⟩
  refine ⟨⟨f, hf, by rw [hfront, hsource]⟩, hvalid, hvalid.le_rawEndPos,
    by rw [hfront]; exact Position.isBehind_iff.2 hafter, fun b hb hline hcolumn => ?_, hback⟩
  -- from line and column the way back leads to this boundary as well
  obtain ⟨s, t, hst, hbyte⟩ := isValid_iff.1 hb
  have hat : Position.atByte source.toList b.byteIdx = .after s := by
    rw [hst, hbyte, Position.atByte_append]
  rw [hat] at hline hcolumn
  have hother := offsetOf?_append s t
  rw [← hst, hline, hcolumn, hback] at hother
  rw [hbyte]
  exact (Option.some.inj hother).symm

/-- An escape that the notation does not have, in the second line and behind letters of two
bytes. -/
theorem Model.parse_malformed_exact_escape :
    Model.parse "// ü\ngrammar T version \"é\\q\"" =
      .error (.malformed ⟨28, 2, 22⟩ "invalid escape sequence") ∧
    (⟨28⟩ : String.Pos.Raw).IsValid "// ü\ngrammar T version \"é\\q\"" ∧
    offsetOf? "// ü\ngrammar T version \"é\\q\"".toList 2 22 = some 28 := by
  have h : Model.parse "// ü\ngrammar T version \"é\\q\"" =
      .error (.malformed ⟨28, 2, 22⟩ "invalid escape sequence") := by
    decide +kernel
  obtain ⟨-, hvalid, -, -, -, hback⟩ := Model.parse_malformed_exact h
  exact ⟨h, hvalid, hback⟩

end GrammarKit
