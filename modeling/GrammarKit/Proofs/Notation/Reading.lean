import GrammarKit.Proofs.Notation.Layout

/-!
# Models are read as they are written

Each reader of the notation reads the lexemes of its part, whatever the layout and whatever comes
behind, as long as what comes behind does not go on with the part.

* `reads_header`, `reads_token`, `reads_union`, `reads_deduction`: the parts.
* `reads_definition`: a definition with its description.
* **`Model.parse_of_laid`**: any text that lays out a model is read as the model.
-/

namespace GrammarKit.Notation

open Text

variable {rest : List Lexeme}

theorem text_word_ne_nil {w : String} (hw : isIdentifier w = true) : (Lexeme.word w).text ≠ [] := by
  obtain ⟨c, s, hname, -⟩ := exists_identifier hw
  rw [Lexeme.text, hname]
  exact List.cons_ne_nil _ _

/-! ## Signs and names -/

theorem reads_semicolon : Reads semicolon [.sign .semicolon] rest () :=
  (reads_sign .semicolon).orCommit.hinting _

theorem reads_definitionName {name : String} (hname : isIdentifier name = true) :
    Reads definitionName [.word name, .sign .equals] rest name := by
  refine .orCommit fun prev s hs => ?_
  obtain ⟨_, s₁, h₁, hs₁⟩ := (reads_word hname).hinting [.part "node name"] hs
  obtain ⟨_, s₂, h₂, hs₂⟩ := (reads_sign .equals).hinting [.expected "="] hs₁
  exact ⟨_, s₂, by simp only [h₁, ok_bind, show '=' = Sign.equals.char from rfl, h₂]; rfl, hs₂⟩

/-- A pattern is told from the other kind by its first character. -/
theorem reads_pattern {p : Pattern} (hp : (Body.token p).IsWritable) :
    Reads (lexeme pattern) [p.lexeme] rest p := by
  cases p with
  | literal t =>
    intro prev s hs
    obtain ⟨_, s₁, h₁, hs₁⟩ := reads_quoted t hs
    obtain ⟨s', htrivia, -⟩ := hs.trivia_cons (Lexeme.isSolid_quoted t)
    have hpattern : pattern (trivia s) = (quoted (trivia s)).map (Prod.map .literal id) := by
      rw [htrivia]
      rfl
    have hquoted : quoted (trivia s) = .ok (t, s₁) := h₁
    exact ⟨_, s₁, by rw [lexeme, hpattern, hquoted]; rfl, hs₁⟩
  | regex source =>
    intro prev s hs
    obtain ⟨_, s₁, h₁, hs₁⟩ := reads_slashed hp.1 hp.2 hs
    obtain ⟨s', htrivia, -⟩ := hs.trivia_cons (Lexeme.isSolid_slashed hp.1)
    have hpattern : pattern (trivia s) = (slashed (trivia s)).map (Prod.map .regex id) := by
      rw [htrivia]
      rfl
    have hslashed : slashed (trivia s) = .ok (source, s₁) := h₁
    exact ⟨_, s₁, by rw [lexeme, hpattern, hslashed]; rfl, hs₁⟩

/-! ## The header -/

theorem reads_versionClause (version : String) :
    Reads versionClause [.word "version", .quoted version] rest version := by
  intro prev s hs
  obtain ⟨_, s₁, h₁, hs₁⟩ := reads_keyword (by decide) hs
  obtain ⟨_, s₂, h₂, hs₂⟩ := (reads_quoted version).orCommit.hinting [.part "version"] hs₁
  exact ⟨_, s₂, by simp only [versionClause, h₁, ok_bind, h₂], hs₂⟩

theorem refuses_versionClause : Refuses versionClause (.word "start" :: rest) := by
  intro prev s hs
  obtain ⟨s', htrivia, -⟩ := hs.trivia_cons (Lexeme.isSolid_word (by decide))
  refine ⟨{ rest := trivia s }, ?_, rfl⟩
  have hkeyword : lexeme (keyword "version") s = .error { rest := trivia s } := by
    rw [lexeme, htrivia]
    rfl
  rw [versionClause, hkeyword]
  rfl

theorem reads_startClause {start : String} (hstart : isIdentifier start = true) :
    Reads startClause [.word "start", .word start] rest start := by
  intro prev s hs
  obtain ⟨_, s₁, h₁, hs₁⟩ := reads_keyword (by decide) hs
  obtain ⟨_, s₂, h₂, hs₂⟩ := reads_word hstart hs₁
  exact ⟨_, s₂, by simp only [startClause, h₁, ok_bind, h₂], hs₂⟩

/-- **The header of a model**, with its version or without. -/
theorem reads_header {name start : String} (version : Option String)
    (hname : isIdentifier name = true) (hstart : isIdentifier start = true) :
    Reads (lexeme header)
      (.word "grammar" :: .word name :: ((match version with
        | some version => [.word "version", .quoted version]
        | none => []) ++ [.word "start", .word start, .sign .semicolon]))
      rest ⟨name, version, start⟩ := by
  intro prev s hs
  obtain ⟨_, s₁, h₁, hs₁⟩ := (reads_keyword (by decide)).hinting [.expected "grammar"] hs
  obtain ⟨_, s₂, h₂, hs₂⟩ := (reads_word hname).orCommit.hinting [.part "grammar name"] hs₁
  have hversion : ∃ prev' s', Reader.optional versionClause s₂ = .ok (version, s') ∧
      Laid prev' (.word "start" :: .word start :: .sign .semicolon :: rest) s' := by
    cases version with
    | some version => exact (reads_versionClause version).optional hs₂
    | none => exact refuses_versionClause.optional hs₂
  obtain ⟨_, s₃, h₃, hs₃⟩ := hversion
  obtain ⟨_, s₄, h₄, hs₄⟩ := (reads_startClause hstart).orCommit.hinting [.expected "start"] hs₃
  obtain ⟨_, s₅, h₅, hs₅⟩ := reads_semicolon hs₄
  have hkeyword : Reader.hinting (keyword "grammar") [.expected "grammar"] (trivia s) = .ok ((), s₁) := h₁
  refine ⟨_, s₅, ?_, hs₅⟩
  simp only [lexeme, header, hkeyword, ok_bind, h₂, h₃, h₄, h₅]
  rfl

/-! ## Definitions -/

/-- **The definition of a token.** -/
theorem reads_token {name : String} {p : Pattern} (hname : isIdentifier name = true)
    (hp : (Body.token p).IsWritable) :
    Reads (lexeme tokenDefinition) [.word "token", .word name, .sign .equals, p.lexeme,
      .sign .semicolon] rest (name, .token p) := by
  intro prev s hs
  obtain ⟨_, s₁, h₁, hs₁⟩ := reads_keyword (by decide) hs
  obtain ⟨_, s₂, h₂, hs₂⟩ := reads_definitionName hname hs₁
  obtain ⟨_, s₃, h₃, hs₃⟩ := (reads_pattern hp).orCommit.hinting
    [.part "token pattern", .described "a \"literal\" or a /regex/"] hs₂
  obtain ⟨_, s₄, h₄, hs₄⟩ := reads_semicolon hs₃
  have hkeyword : keyword "token" (trivia s) = .ok ((), s₁) := h₁
  refine ⟨_, s₄, ?_, hs₄⟩
  simp only [lexeme, tokenDefinition, hkeyword, ok_bind, h₂, h₃, h₄]
  rfl

theorem reads_nextMember {x : String} (hx : isIdentifier x = true) :
    Reads nextMember [.sign .bar, .word x] rest x := by
  intro prev s hs
  obtain ⟨_, s₁, h₁, hs₁⟩ := reads_sign .bar hs
  obtain ⟨_, s₂, h₂, hs₂⟩ := reads_word hx hs₁
  exact ⟨_, s₂, by simp only [nextMember, show '|' = Sign.bar.char from rfl, h₁, ok_bind, h₂], hs₂⟩

theorem refuses_nextMember : Refuses nextMember (.sign .semicolon :: rest) := by
  intro prev s hs
  obtain ⟨f, hf, hcommitted⟩ := refuses_sign (c := .bar) (by decide) hs
  exact ⟨f, by simp only [nextMember, show '|' = Sign.bar.char from rfl, hf, error_bind], hcommitted⟩

/-- **The definition of a union.** -/
theorem reads_union {name : String} {members : List String} (hname : isIdentifier name = true)
    (hmembers : (Body.union members).IsWritable) :
    Reads (lexeme unionDefinition) (.word "union" :: .word name :: .sign .equals ::
      ((Body.union members).lexemes ++ [.sign .semicolon])) rest (name, .union members) := by
  obtain ⟨hne, hall⟩ := hmembers
  cases members with
  | nil => exact absurd rfl hne
  | cons first members =>
    obtain ⟨hfirst, hall⟩ := List.forall_mem_cons.1 hall
    intro prev s hs
    obtain ⟨_, s₁, h₁, hs₁⟩ := reads_keyword (by decide) hs
    obtain ⟨_, s₂, h₂, hs₂⟩ := reads_definitionName hname hs₁
    obtain ⟨_, s₃, h₃, hs₃⟩ := (reads_word hfirst).orCommit.hinting [.part "union members"] hs₂
    have hmany : Reads (fun s => Reader.many nextMember s.length s)
        (members.flatMap fun x => [.sign .bar, .word x]) (.sign .semicolon :: rest) members := by
      refine .many (fun front x back hsplit => reads_nextMember (hall x ?_)) refuses_nextMember
        fun x _ => ⟨_, _, rfl, List.cons_ne_nil _ _⟩
      rw [hsplit]
      exact List.mem_append_right _ List.mem_cons_self
    rw [List.append_eq, List.append_eq, List.append_assoc] at hs₃
    obtain ⟨_, s₄, h₄, hs₄⟩ := hmany hs₃
    obtain ⟨_, s₅, h₅, hs₅⟩ := reads_semicolon hs₄
    have hkeyword : keyword "union" (trivia s) = .ok ((), s₁) := h₁
    refine ⟨_, s₅, ?_, hs₅⟩
    simp only [lexeme, unionDefinition, hkeyword, ok_bind, h₂, Notation.members, h₃, h₄]
    show (semicolon s₄ >>= _) = _
    rw [h₅]
    rfl

theorem reads_elementNode {target : String} (htarget : isIdentifier target = true) :
    Reads elementNode [.sign .colon, .word target] rest target := by
  intro prev s hs
  obtain ⟨_, s₁, h₁, hs₁⟩ := reads_sign .colon hs
  obtain ⟨_, s₂, h₂, hs₂⟩ := (reads_word htarget).orCommit.hinting [.part "element node"] hs₁
  exact ⟨_, s₂, by simp only [elementNode, show ':' = Sign.colon.char from rfl, h₁, ok_bind, h₂],
    hs₂⟩

theorem refuses_elementNode (h : Refuses (lexeme (sign Sign.colon.char)) rest) :
    Refuses elementNode rest := by
  intro prev s hs
  obtain ⟨f, hf, hcommitted⟩ := h hs
  exact ⟨f, by simp only [elementNode, show ':' = Sign.colon.char from rfl, hf, error_bind],
    hcommitted⟩

/-- An element is read, unless it is a node and a colon follows. -/
theorem reads_element {e : Element} (htarget : isIdentifier e.target = true)
    (hproperty : ∀ property, e.property = some property → isIdentifier property = true)
    (h : Refuses (lexeme (sign Sign.colon.char)) rest) : Reads element e.lexemes rest e := by
  obtain ⟨target, property⟩ := e
  cases property with
  | some property =>
    intro prev s hs
    obtain ⟨_, s₁, h₁, hs₁⟩ := reads_word (hproperty property rfl) hs
    obtain ⟨_, s₂, h₂, hs₂⟩ := (reads_elementNode htarget).optional hs₁
    refine ⟨_, s₂, ?_, hs₂⟩
    simp only [element, h₁, ok_bind, h₂]
    rfl
  | none =>
    intro prev s hs
    obtain ⟨_, s₁, h₁, hs₁⟩ := reads_word htarget hs
    obtain ⟨_, s₂, h₂, hs₂⟩ := (refuses_elementNode h).optional hs₁
    refine ⟨_, s₂, ?_, hs₂⟩
    simp only [element, h₁, ok_bind, h₂]
    rfl

theorem refuses_element : Refuses element (.sign .semicolon :: rest) := by
  intro prev s hs
  obtain ⟨f, hf, hcommitted⟩ := refuses_word_sign .semicolon hs
  exact ⟨f, by simp only [element, hf, error_bind], hcommitted⟩

/-- An element starts with a word. -/
theorem exists_element_lexemes {e : Element} (htarget : isIdentifier e.target = true)
    (hproperty : ∀ property, e.property = some property → isIdentifier property = true) :
    ∃ w ls, e.lexemes = .word w :: ls ∧ isIdentifier w = true := by
  obtain ⟨target, property⟩ := e
  cases property with
  | some property => exact ⟨_, _, rfl, hproperty property rfl⟩
  | none => exact ⟨_, _, rfl, htarget⟩

/-- **The definition of a deduction.** -/
theorem reads_deduction {name : String} {elements : List Element}
    (hname : isIdentifier name = true) (helements : (Body.deduction elements).IsWritable) :
    Reads (lexeme deductionDefinition) (.word "deduction" :: .word name :: .sign .equals ::
      ((Body.deduction elements).lexemes ++ [.sign .semicolon])) rest
      (name, .deduction elements) := by
  have hmany : Reads (fun s => Reader.many element s.length s) (elements.flatMap Element.lexemes)
      (.sign .semicolon :: rest) elements := by
    refine .many (fun front e back hsplit => ?_) refuses_element fun e he => ?_
    · have hback : ∀ d ∈ e :: back, d ∈ elements := fun d hd =>
        hsplit ▸ List.mem_append_right _ hd
      obtain ⟨htarget, hproperty⟩ := helements e (hback e List.mem_cons_self)
      refine reads_element htarget hproperty ?_
      cases back with
      | nil => exact refuses_sign (by decide)
      | cons d back =>
        obtain ⟨hd, hdproperty⟩ := helements d (hback d (by simp))
        obtain ⟨w, ls, hlexemes, hw⟩ := exists_element_lexemes hd hdproperty
        rw [List.flatMap_cons, hlexemes]
        exact refuses_sign_word hw
    · obtain ⟨htarget, hproperty⟩ := helements e he
      obtain ⟨w, ls, hlexemes, hw⟩ := exists_element_lexemes htarget hproperty
      exact ⟨_, ls, hlexemes, text_word_ne_nil hw⟩
  intro prev s hs
  obtain ⟨_, s₁, h₁, hs₁⟩ := reads_keyword (by decide) hs
  obtain ⟨_, s₂, h₂, hs₂⟩ := reads_definitionName hname hs₁
  rw [List.append_eq, List.append_assoc] at hs₂
  obtain ⟨_, s₃, h₃, hs₃⟩ := hmany hs₂
  obtain ⟨_, s₄, h₄, hs₄⟩ := reads_semicolon hs₃
  have hkeyword : keyword "deduction" (trivia s) = .ok ((), s₁) := h₁
  refine ⟨_, s₄, ?_, hs₄⟩
  simp only [lexeme, deductionDefinition, hkeyword, ok_bind, h₂, h₃, h₄]
  rfl

/-- **A definition is told from the other kinds by its key word.** -/
theorem reads_definitionBody {name : String} {n : Node} (hname : isIdentifier name = true)
    (hbody : n.body.IsWritable) :
    Reads (lexeme definitionBody) (.word n.kind.word :: .word name :: .sign .equals ::
      (n.body.lexemes ++ [.sign .semicolon])) rest (name, n.body) := by
  intro prev s hs
  obtain ⟨s', htrivia, -⟩ := hs.trivia_cons
    (Lexeme.isSolid_word (show isIdentifier n.kind.word = true by cases n.kind <;> decide))
  cases hn : n.body with
  | token p =>
    have hkind : n.kind = .token := by rw [Node.kind, hn]
    rw [hn] at hbody hs
    rw [hkind] at hs
    obtain ⟨_, s₁, h₁, hs₁⟩ := reads_token hname hbody hs
    have htoken : tokenDefinition (trivia s) = .ok ((name, .token p), s₁) := h₁
    exact ⟨_, s₁, by rw [lexeme, definitionBody, htoken], hs₁⟩
  | union members =>
    have hkind : n.kind = .union := by rw [Node.kind, hn]
    rw [hn] at hbody hs
    rw [hkind] at hs htrivia
    obtain ⟨_, s₁, h₁, hs₁⟩ := reads_union hname hbody hs
    have hunion : unionDefinition (trivia s) = .ok ((name, .union members), s₁) := h₁
    have htoken : tokenDefinition (trivia s) = .error { rest := trivia s } := by
      rw [htrivia]
      rfl
    exact ⟨_, s₁, by simp only [lexeme, definitionBody, htoken, hunion, Bool.false_eq_true, if_false],
      hs₁⟩
  | deduction elements =>
    have hkind : n.kind = .deduction := by rw [Node.kind, hn]
    rw [hn] at hbody hs
    rw [hkind] at hs htrivia
    obtain ⟨_, s₁, h₁, hs₁⟩ := reads_deduction hname hbody hs
    have hdeduction : deductionDefinition (trivia s) = .ok ((name, .deduction elements), s₁) := h₁
    have htoken : tokenDefinition (trivia s) = .error { rest := trivia s } := by
      rw [htrivia]
      rfl
    have hunion : unionDefinition (trivia s) = .error { rest := trivia s } := by
      rw [htrivia]
      rfl
    exact ⟨_, s₁, by simp only [lexeme, definitionBody, htoken, hunion, hdeduction,
      Bool.false_eq_true, if_false], hs₁⟩

/-! ## Descriptions -/

theorem notMem_of_mem_splitOn {c : Char} {s line : List Char} (h : line ∈ s.splitOn c) :
    c ∉ line := by
  induction s generalizing line with
  | nil =>
    obtain rfl : line = [] := by simpa using h
    exact List.not_mem_nil
  | cons d s ih =>
    rw [List.splitOn_cons_eq_if_modifyHead] at h
    split at h
    · rcases List.mem_cons.1 h with rfl | h
      · exact List.not_mem_nil
      · exact ih h
    · rename_i hd
      obtain ⟨first, lines, hlines⟩ := List.exists_cons_of_ne_nil (List.splitOn_ne_nil c s)
      rw [hlines] at h ih
      rcases List.mem_cons.1 h with rfl | h
      · rw [List.mem_cons, not_or]
        exact ⟨fun hc => hd (by simp [hc]), ih List.mem_cons_self⟩
      · exact ih (List.mem_cons_of_mem _ h)

theorem trivia_dropWhile (s : List Char) : trivia (s.dropWhile isBlank) = trivia s := by
  induction s with
  | nil => rfl
  | cons c s ih =>
    by_cases hc : isBlank c = true
    · rw [List.dropWhile_cons_of_pos hc, trivia_cons_of_isBlank hc, ih]
    · rw [List.dropWhile_cons_of_neg hc]

/-- No line of a description stands in front of a word, whatever comments do. -/
theorem docLines_of_word {w : String} (hw : isIdentifier w = true) {s t : List Char}
    (hs : trivia s = (Lexeme.word w).text ++ t) (n : Nat) : docLines n s = ([], s) := by
  cases n with
  | zero => rfl
  | succ n =>
    rw [docLines]
    split
    · rename_i u hu
      have hslashes : trivia s = '/' :: '/' :: '/' :: u := by
        rw [← trivia_dropWhile, hu, trivia_docLine]
      obtain ⟨c, v, hname, hc, -⟩ := exists_identifier hw
      rw [hs, Lexeme.text, hname] at hslashes
      exact absurd (List.cons.inj hslashes).1 (ne_of_isIdentifierStart hc (by decide))
    · rfl

theorem docLines_line {line : List Char} (hfeed : '\n' ∉ line) (hreturn : '\r' ∉ line) (n : Nat)
    {s t : List Char} (hs : s.dropWhile isBlank = (Lexeme.line line).text ++ t) :
    docLines (n + 1) s =
      ((' ' :: line) :: (docLines n (t.dropWhile isBlank)).1,
        (docLines n (t.dropWhile isBlank)).2) := by
  have hfeed' : '\n' ∉ ' ' :: line := by simp [hfeed]
  have hreturn' : '\r' ∉ ' ' :: line := by simp [hreturn]
  have hline : restOfLine? (' ' :: (line ++ '\n' :: t)) = some (' ' :: line, '\n' :: t) :=
    restOfLine?_append hfeed' hreturn' t
  have htext : (Lexeme.line line).text ++ t = '/' :: '/' :: '/' :: ' ' :: (line ++ '\n' :: t) := by
    simp [Lexeme.text]
  rw [docLines, hs, htext]
  simp only [hline]
  rfl

/-- **The lines of a description are read** up to the first word; only blanks and comments are left in
front of it. -/
theorem docLines_lines {w : String} (hw : isIdentifier w = true) {lines : List (List Char)}
    (hlines : ∀ line ∈ lines, '\n' ∉ line ∧ '\r' ∉ line) {last : List Char} {s : List Char}
    (hs : Laid (some (.line last)) (lines.map Lexeme.line ++ .word w :: rest) s) {n : Nat}
    (hn : lines.length ≤ n) :
    ∃ s₁ prev s₂, docLines n (s.dropWhile isBlank) = (lines.map fun line => ' ' :: line, s₁) ∧
      trivia s₁ = trivia s₂ ∧ Laid prev (.word w :: rest) s₂ := by
  induction lines generalizing last s n with
  | nil =>
    obtain ⟨s', htrivia, -⟩ := hs.trivia_cons (Lexeme.isSolid_word hw)
    exact ⟨_, _, s, docLines_of_word hw (by rw [trivia_dropWhile, htrivia]) n, trivia_dropWhile s, hs⟩
  | cons line lines ih =>
    obtain ⟨⟨hfeed, hreturn⟩, hlines⟩ := List.forall_mem_cons.1 hlines
    obtain ⟨n, rfl⟩ : ∃ k, n = k + 1 := ⟨n - 1, by rw [List.length_cons] at hn; omega⟩
    cases hs with
    | @cons _ _ _ g t hbetween htail =>
      have hg : ∀ c ∈ g, isBlank c = true := List.all_eq_true.1 (hbetween.blank last line rfl rfl)
      have hslash : isBlank '/' = false := by decide
      have hdrop : ((g ++ ((Lexeme.line line).text ++ t)).dropWhile isBlank).dropWhile isBlank =
          (Lexeme.line line).text ++ t := by
        rw [List.dropWhile_append_of_pos hg, Lexeme.text, List.cons_append,
          List.dropWhile_cons_of_neg (by simp [hslash]), List.dropWhile_cons_of_neg (by simp [hslash])]
      obtain ⟨s₁, prev, s₂, hdoc, htrivia, hword⟩ := ih hlines htail (Nat.le_of_succ_le_succ hn)
      refine ⟨s₁, prev, s₂, ?_, htrivia, hword⟩
      rw [docLines_line hfeed hreturn n hdrop, hdoc]
      rfl

/-- A line of a description is given back, unless white space ends it. -/
theorem docText_line {line : List Char}
    (hline : ∀ c, line.getLast? = some c → isWhiteSpace c = false) : docText (' ' :: line) = line := by
  show trimEnd line = line
  rw [trimEnd]
  cases hreverse : line.reverse with
  | nil =>
    rw [List.reverse_eq_nil_iff.1 hreverse]
    rfl
  | cons c t =>
    have hlast : line.getLast? = some c := by
      rw [← List.head?_reverse, hreverse]
      rfl
    rw [List.dropWhile_cons_of_neg (by simp [hline c hlast]), ← hreverse, List.reverse_reverse]

/-- **The lines of a description make up the description.** -/
theorem joined_descriptionLines {d : Option String}
    (h : ∀ line ∈ descriptionLines d, ∀ c, line.getLast? = some c → isWhiteSpace c = false) :
    (if (descriptionLines d).map (fun line => ' ' :: line) = [] then none
      else some ("\n".intercalate (((descriptionLines d).map fun line => ' ' :: line).map
        fun line => String.ofList (docText line)))) = d := by
  cases d with
  | none => rfl
  | some text =>
    have hne : (descriptionLines (some text)).map (fun line => ' ' :: line) ≠ [] := by
      simp [descriptionLines]
    have htexts : ((descriptionLines (some text)).map fun line => ' ' :: line).map
        (fun line => String.ofList (docText line)) =
          (text.toList.splitOn '\n').map String.ofList := by
      rw [List.map_map]
      exact List.map_congr_left fun line hline =>
        congrArg String.ofList (docText_line (h line hline))
    rw [if_neg hne, htexts]
    refine congrArg some (String.toList_inj.1 ?_)
    rw [String.toList_intercalate, List.map_map,
      show String.toList ∘ String.ofList = id from funext fun _ => String.toList_ofList, List.map_id]
    exact List.intercalate_splitOn '\n'

/-- **A definition is read with its description.** -/
theorem reads_definition {name : String} {n : Node} (hname : isIdentifier name = true)
    (hn : n.IsWritable) : Reads definition (n.lexemes name) rest (name, n) := by
  have hkind : isIdentifier n.kind.word = true := by cases n.kind <;> decide
  intro prev s hs
  rw [Node.lexemes, List.append_assoc] at hs
  -- whatever stands in front, the definition itself is read behind blanks and comments
  have hdoc : ∃ s₁ prev s₂, description (trivia s) = (n.description, s₁) ∧
      trivia s₁ = trivia s₂ ∧ Laid prev (.word n.kind.word :: .word name :: .sign .equals ::
        (n.body.lexemes ++ [.sign .semicolon]) ++ rest) s₂ := by
    have hjoined := joined_descriptionLines fun line hline => (hn.description line hline).2
    cases hlines : descriptionLines n.description with
    | nil =>
      rw [hlines] at hs hjoined
      obtain ⟨s', htrivia, -⟩ := hs.trivia_cons (Lexeme.isSolid_word hkind)
      have htwice : trivia (trivia s) = (Lexeme.word n.kind.word).text ++ s' := by
        rw [htrivia, Lexeme.isSolid_word hkind]
      refine ⟨trivia s, prev, s, ?_, by rw [htwice, htrivia], hs⟩
      rw [description, docLines_of_word hkind htwice]
      exact congrArg (·, trivia s) hjoined
    | cons line lines =>
      have hall : ∀ line ∈ descriptionLines n.description, '\n' ∉ line ∧ '\r' ∉ line := by
        intro line hline
        refine ⟨?_, (hn.description line hline).1⟩
        cases hd : n.description with
        | none =>
          rw [hd] at hline
          cases hline
        | some text =>
          rw [hd] at hline
          exact notMem_of_mem_splitOn hline
      rw [hlines] at hs hjoined hall
      obtain ⟨⟨hfeed, hreturn⟩, hrest⟩ := List.forall_mem_cons.1 hall
      obtain ⟨t, htrivia, htail⟩ := hs.trivia_cons (Lexeme.isSolid_line line)
      have hlength : lines.length + 1 ≤ (trivia s).length := by
        rw [htrivia, List.append_eq, List.map_eq_flatMap] at *
        have hle := htail.length_le fun line _ => ⟨_, _, rfl, List.cons_ne_nil _ _⟩
        simp only [Lexeme.text, List.cons_append, List.length_cons, List.length_append]
        omega
      obtain ⟨k, hk⟩ : ∃ k, (trivia s).length = k + 1 := ⟨(trivia s).length - 1, by omega⟩
      obtain ⟨s₁, prev, s₂, hdoc, hbehind, hword⟩ :=
        docLines_lines hkind hrest htail (show lines.length ≤ k by omega)
      refine ⟨s₁, prev, s₂, ?_, hbehind, hword⟩
      have hfront : (trivia s).dropWhile isBlank = (Lexeme.line line).text ++ t := by
        rw [htrivia]
        rfl
      rw [description, hk, docLines_line hfeed hreturn k hfront, hdoc]
      exact congrArg (·, s₁) hjoined
  obtain ⟨s₁, prev', s₂, hdescription, htrivia, hs₂⟩ := hdoc
  obtain ⟨prev'', s₃, h₃, hs₃⟩ := (reads_definitionBody hname hn.body).hinting
    [.part "node definition", .expected "token", .expected "union", .expected "deduction"] hs₂
  have hbody : Reader.hinting definitionBody
      [.part "node definition", .expected "token", .expected "union", .expected "deduction"]
      (trivia s₁) = .ok ((name, n.body), s₃) := by
    rw [htrivia]
    exact h₃
  refine ⟨prev'', s₃, ?_, hs₃⟩
  rw [definition, hdescription]
  simp only [hbody, ok_bind]
  rfl

theorem refuses_definition : Refuses definition [] := by
  intro prev s hs
  cases hs with
  | nil hg =>
    have hend : trivia [] = [] := by rw [trivia]
    have htrivia : trivia s = [] := by rw [← List.append_nil s, trivia_append hg, hend]
    have hdescription : description [] = (none, []) := rfl
    refine ⟨{ rest := [], hints := [.part "node definition", .expected "token",
      .expected "union", .expected "deduction"] }, ?_, rfl⟩
    simp only [definition, htrivia, hdescription, hend]
    rfl

/-! ## Models -/

/-- Distinct names have no repeat. -/
theorem firstRepeat?_eq_none {α : Type} {entries : List (String × α)} {seen : List String}
    (hnodup : (entries.map Prod.fst).Nodup) (hseen : ∀ x ∈ seen, x ∉ entries.map Prod.fst) :
    firstRepeat? seen entries = none := by
  induction entries generalizing seen with
  | nil => rfl
  | cons e entries ih =>
    obtain ⟨name, a⟩ := e
    obtain ⟨hname, hnodup⟩ := List.nodup_cons.1 hnodup
    have hnew : name ∉ seen := fun hmem => hseen name hmem List.mem_cons_self
    rw [firstRepeat?, if_neg hnew]
    refine ih hnodup fun x hx => ?_
    rcases List.mem_cons.1 hx with rfl | hx
    · exact hname
    · exact fun hmem => hseen x hx (List.mem_cons_of_mem _ hmem)

/-- The lexemes of a definition start with a key word or with a line of the description. -/
theorem exists_node_lexemes (name : String) (n : Node) :
    ∃ l ls, n.lexemes name = l :: ls ∧ l.text ≠ [] := by
  rw [Node.lexemes]
  cases descriptionLines n.description with
  | nil => exact ⟨_, _, rfl, text_word_ne_nil (by cases n.kind <;> decide)⟩
  | cons line lines => exact ⟨_, _, rfl, List.cons_ne_nil _ _⟩

/-- **The text of a model** is its header and its definitions. -/
theorem modelText_of_laid {m : Model} (hm : m.IsWritable) (versioned : Bool) {s : List Char}
    (h : Laid none (m.lexemes versioned) s) :
    modelText s =
      .ok (⟨m.name, if versioned then some m.version else none, m.start⟩, m.nodes.entries) := by
  obtain ⟨t, htrivia, -⟩ := h.trivia_cons (Lexeme.isSolid_word (by decide))
  have htwice : trivia (trivia s) = trivia s := by
    rw [htrivia, Lexeme.isSolid_word (by decide)]
  have hdescription : (description (trivia s)).2 = trivia s := by
    rw [description, docLines_of_word (by decide) (htwice.trans htrivia)]
  have hlexemes : m.lexemes versioned = .word "grammar" :: .word m.name ::
      ((match if versioned then some m.version else none with
        | some version => [.word "version", .quoted version]
        | none => []) ++ [.word "start", .word m.start, .sign .semicolon]) ++
      (m.nodes.entries.flatMap (fun e => e.2.lexemes e.1) ++ []) := by
    cases versioned <;> simp [Model.lexemes, Model.versionLexemes]
  rw [hlexemes] at h
  obtain ⟨_, s₁, h₁, hs₁⟩ := reads_header _ hm.name hm.start h
  have hmany : Reads (fun s => Reader.many definition s.length s)
      (m.nodes.entries.flatMap fun e => e.2.lexemes e.1) [] m.nodes.entries := by
    refine .many (fun front e back hsplit => ?_) refuses_definition
      fun e _ => exists_node_lexemes e.1 e.2
    obtain ⟨hname, hnode⟩ := hm.nodes e (hsplit ▸ List.mem_append_right _ List.mem_cons_self)
    exact reads_definition hname hnode
  obtain ⟨_, s₂, h₂, hs₂⟩ := hmany hs₁
  have hend : trivia s₂ = [] := by
    cases hs₂ with
    | nil hg => rw [← List.append_nil s₂, trivia_append hg, trivia]
  have hheader : header (trivia s) = _ := h₁
  rw [modelText, hdescription, htwice, hheader, ok_bind]
  simp only [h₂, ok_bind, hend, if_true]
  rfl

/-- With a blank in front of each, lexemes are laid out. -/
theorem laid_spaced (prev : Option Lexeme) (ls : List Lexeme) :
    Laid prev ls (ls.flatMap fun l => ' ' :: l.text) := by
  induction ls generalizing prev with
  | nil => exact .nil .nil
  | cons l ls ih =>
    have hbetween : Between prev l [' '] :=
      { isGap := .blank (by decide) .nil
        apart := fun _ _ _ _ => List.cons_ne_nil _ _
        blank := fun _ _ _ _ => by decide }
    exact .cons hbetween (ih (some l))

end GrammarKit.Notation

namespace GrammarKit

open Notation

/-- **A model is read as it is written**, whatever the layout; the default version may be left out. -/
theorem Model.parse_of_laid {m : Model} (hm : m.IsWritable) (versioned : Bool)
    (hversion : versioned = false → m.version = Model.defaultVersion) {text : String}
    (h : Laid none (m.lexemes versioned) text.toList) : Model.parse text = .ok m := by
  have hrepeat : firstRepeat? [] m.nodes.entries = none :=
    firstRepeat?_eq_none m.nodes.nodup fun _ hx => absurd hx List.not_mem_nil
  have hdefault : (if versioned then some m.version else none).getD Model.defaultVersion =
      m.version := by
    cases versioned with
    | true => rfl
    | false => exact (hversion rfl).symm
  rw [Model.parse, modelText_of_laid hm versioned h]
  simp only [hrepeat, hdefault, Table.ofList_entries]

/-- A model with a description of two lines, a slash in a regular expression and a quote. -/
def Model.shares : Model where
  name := "Shares"
  version := "0.2"
  start := "Share"
  nodes := ⟨[
    ("Number", {
      description := some "Digits,\nwith a share."
      body := .token (.regex "\\d+(/\\d+)?") }),
    ("Quote", { body := .token (.literal "\"") }),
    ("Quoted", { body := .deduction [⟨"Quote", none⟩, ⟨"Number", some "value"⟩, ⟨"Quote", none⟩] }),
    ("Share", { body := .union ["Number", "Quoted"] })], by decide⟩

theorem Model.parse_of_laid_shares :
    Model.shares.IsWritable ∧
      Laid none (Model.shares.lexemes true)
        (String.ofList ((Model.shares.lexemes true).flatMap fun l => ' ' :: l.text)).toList ∧
      Model.parse (String.ofList ((Model.shares.lexemes true).flatMap fun l => ' ' :: l.text)) =
        .ok Model.shares := by
  have hline {line : List Char} {last : Char} (hreturn : '\r' ∉ line)
      (hlast : line.getLast? = some last) (hspace : Text.isWhiteSpace last = false) :
      '\r' ∉ line ∧ ∀ c, line.getLast? = some c → Text.isWhiteSpace c = false := by
    refine ⟨hreturn, fun c hc => ?_⟩
    rw [← Option.some.inj (hlast.symm.trans hc)]
    exact hspace
  have hlines : ∀ line ∈ descriptionLines (some "Digits,\nwith a share."),
      '\r' ∉ line ∧ ∀ c, line.getLast? = some c → Text.isWhiteSpace c = false := by
    have hsplit : descriptionLines (some "Digits,\nwith a share.") =
        ["Digits,".toList, "with a share.".toList] := by decide
    rw [hsplit, List.forall_mem_cons, List.forall_mem_singleton]
    exact ⟨hline (by decide) rfl (by decide), hline (by decide) rfl (by decide)⟩
  have hquoted : (Body.deduction
      [⟨"Quote", none⟩, ⟨"Number", some "value"⟩, ⟨"Quote", none⟩]).IsWritable := by
    simp only [Body.IsWritable, List.forall_mem_cons]
    decide
  have hnone {body : Body} (hbody : body.IsWritable) : Node.IsWritable { body } :=
    ⟨fun _ h => absurd h List.not_mem_nil, hbody⟩
  have hnodes : ∀ e ∈ shares.nodes.entries, isIdentifier e.1 = true ∧ e.2.IsWritable := by
    simp only [shares, List.forall_mem_cons]
    exact ⟨⟨by decide, hlines, by decide, by decide⟩, ⟨by decide, hnone trivial⟩,
      ⟨by decide, hnone hquoted⟩, ⟨by decide, hnone ⟨by decide, by decide⟩⟩,
      fun _ h => absurd h List.not_mem_nil⟩
  have hwritable : shares.IsWritable := ⟨by decide, by decide, hnodes⟩
  have hlaid : Laid none (shares.lexemes true)
      (String.ofList ((shares.lexemes true).flatMap fun l => ' ' :: l.text)).toList := by
    rw [String.toList_ofList]
    exact laid_spaced none _
  exact ⟨hwritable, hlaid, parse_of_laid hwritable true (fun h => by cases h) hlaid⟩

end GrammarKit
