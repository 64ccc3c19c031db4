import GrammarKit.Proofs.Peg.Expressions

/-!
# Rules, written and read

* `Definition.Writes`: what a rule that was read has to do with the rule that was written.
* **`finds_definition`**: a rule is read as it was written.
* `refuses_definition_name`, `refuses_definition_row`: rules with names that start with `PUSH`
  cannot be read.
* `isPlainName_of_readGrammar`: all names that are read are plain.
-/

namespace GrammarKit.Peg

open Reader

/-! ## Rules -/

/-- The sign in front of the body of a rule. -/
def RuleKind.sign : RuleKind → List Char
  | normal => []
  | silent => ['_']
  | atomic => ['@']
  | compound => ['$']
  | nonAtomic => ['!']

/-- What is written of a rule in front of its body. -/
def ruleHead (name : String) (kind : RuleKind) : List Char :=
  name.toList ++ ' ' :: '=' :: ' ' :: (kind.sign ++ ['\x7b', ' '])

/-- **The rule stands for the one that was written**, without faults if all counts are sound. -/
structure Definition.Writes (d : Definition) (r : Rule) : Prop where
  name : d.name = r.name
  kind : d.kind = r.kind
  body : d.body.Writes r.body

theorem Definition.Writes.rule {d : Definition} {r : Rule} (h : d.Writes r) : d.rule = r := by
  rw [Definition.rule, h.name, h.kind, h.body.expr]

theorem finds_modifier {kind : RuleKind} (hkind : kind ≠ .normal) (k : List Char) :
    modifier.Finds (kind.sign ++ k) (· = kind) k := by
  cases kind with
  | normal => exact absurd rfl hkind
  | silent =>
    refine finds_firstOf_head ((finds_sign "silent_modifier" "_" k).bind fun _ _ => ?_)
    exact finds_pure (P := (· = RuleKind.silent)) rfl k
  | atomic =>
    refine finds_firstOf_tail (refuses_sign_of_ne rfl (by decide)).bind (finds_firstOf_head ?_)
    refine (finds_sign "atomic_modifier" "@" k).bind fun _ _ => ?_
    exact finds_pure (P := (· = RuleKind.atomic)) rfl k
  | compound =>
    refine finds_firstOf_tail (refuses_sign_of_ne rfl (by decide)).bind ?_
    refine finds_firstOf_tail (refuses_sign_of_ne rfl (by decide)).bind (finds_firstOf_head ?_)
    refine (finds_sign "compound_atomic_modifier" "$" k).bind fun _ _ => ?_
    exact finds_pure (P := (· = RuleKind.compound)) rfl k
  | nonAtomic =>
    refine finds_firstOf_tail (refuses_sign_of_ne rfl (by decide)).bind ?_
    refine finds_firstOf_tail (refuses_sign_of_ne rfl (by decide)).bind ?_
    refine finds_firstOf_tail (refuses_sign_of_ne rfl (by decide)).bind (finds_firstOf_head ?_)
    refine (finds_sign "non_atomic_modifier" "!" k).bind fun _ _ => ?_
    exact finds_pure (P := (· = RuleKind.nonAtomic)) rfl k

theorem refuses_modifier (k : List Char) : modifier.Refuses ('\x7b' :: k) := by
  refine refuses_firstOf fun r hr => ?_
  simp only [List.mem_cons, List.not_mem_nil, or_false] at hr
  rcases hr with rfl | rfl | rfl | rfl <;> exact (refuses_sign_of_ne rfl (by decide)).bind

/-- The kind of a rule in front of its brace. -/
theorem finds_opt_modifier (kind : RuleKind) (k : List Char) :
    (opt modifier).Finds (kind.sign ++ '\x7b' :: k) (fun x => x.getD .normal = kind)
      ('\x7b' :: k) := by
  by_cases hkind : kind = .normal
  · subst hkind
    refine (refuses_modifier k).opt.mono ?_
    rintro _ rfl
    rfl
  · refine (finds_modifier hkind _).opt.mono ?_
    rintro _ ⟨_, rfl, rfl⟩
    rfl

theorem dropGap_sign (kind : RuleKind) (k : List Char) :
    dropGap (kind.sign ++ '\x7b' :: k) = kind.sign ++ '\x7b' :: k := by
  cases kind <;> exact dropGap_solid (by decide) _

section Definitions

variable {depth : Nat} {name : String} {kind : RuleKind} {k : List Char}

/-- The body of a rule up to its closing brace. -/
def ruleBody (depth : Nat) (name : String) (nameSpan : Span) (kind : Option RuleKind) :
    Reader (Option Definition) := do
  let e ← expression depth; gap
  let _ ← sign "closing_brace" "\x7d"
  return some { name, nameSpan, kind := kind.getD .normal, body := e.body }

/-- A rule up to its closing brace. -/
def wholeRule (depth : Nat) : Reader (Option Definition) := do
  let (name, nameSpan) ← identifier; gap
  let _ ← sign "assignment_operator" "="; gap
  let kind ← opt modifier; gap
  let _ ← sign "opening_brace" "\x7b"; gap
  ruleBody depth name nameSpan kind

theorem definition_eq (depth : Nat) :
    definition depth = named "grammar_rule" (orElse (wholeRule depth) (do ruleDoc; return none)) :=
  rfl

/-- What stands behind the name of a rule: a gap, the sign of assignment and an opening brace. -/
structure OpensRule (s : List Char) (kind : RuleKind) (k : List Char) : Prop where
  ends : EndsName s
  behindGap : dropGap s = '=' :: ' ' :: (kind.sign ++ '\x7b' :: ' ' :: k)

theorem ruleHead_append (name : String) (kind : RuleKind) (k : List Char) :
    ruleHead name kind ++ k =
      name.toList ++ ' ' :: '=' :: ' ' :: (kind.sign ++ '\x7b' :: ' ' :: k) := by
  simp [ruleHead]

theorem opensRule_ruleHead (kind : RuleKind) (k : List Char) :
    OpensRule (' ' :: '=' :: ' ' :: (kind.sign ++ '\x7b' :: ' ' :: k)) kind k where
  ends := endsName_cons (by decide)
  behindGap := by rw [dropGap_space, dropGap_solid (by decide)]

/-- The body of a rule decides what becomes of the rule. -/
theorem wholeRule_leads (hname : IsRuleName name) {s : List Char} (hs : OpensRule s kind k)
    {O : Step (Option Definition) → Prop}
    (hbody : ∀ span o, o.getD .normal = kind → ∀ a, O (ruleBody depth name span o (dropGap k) a))
    (a : Attempts) : O (wholeRule depth (name.toList ++ s) a) := by
  refine (finds_identifier hname hs.ends).leads ?_ a
  rintro ⟨_, span⟩ rfl
  refine (finds_gap _).leads fun _ _ => ?_
  rw [hs.behindGap]
  refine (finds_sign "assignment_operator" "=" _).leads fun _ _ => (finds_gap _).leads fun _ _ => ?_
  rw [dropGap_space, dropGap_sign]
  refine (finds_opt_modifier kind _).leads fun o ho => (finds_gap _).leads fun _ _ => ?_
  rw [dropGap_solid (by decide)]
  refine (finds_sign "opening_brace" "\x7b" _).leads fun _ _ => (finds_gap _).leads fun _ _ => ?_
  rw [dropGap_space]
  exact hbody span o ho

/-- **A rule is read as it was written**, if its body is. -/
theorem finds_definition {body : List Char} {e : Expr} (hname : IsRuleName name) {s : List Char}
    (hs : OpensRule s kind (body ++ ' ' :: '\x7d' :: k))
    (hgap : dropGap (body ++ ' ' :: '\x7d' :: k) = body ++ ' ' :: '\x7d' :: k)
    (hbody : (expression depth).ReadsTo (body ++ ' ' :: '\x7d' :: k)
      (fun x => x.hasBar = false ∧ x.body.Writes e) (' ' :: '\x7d' :: k)) :
    (definition depth).Finds (name.toList ++ s)
      (fun x => ∃ d, x = some d ∧ d.Writes ⟨name, kind, e⟩) k := by
  obtain ⟨k₁, hk₁, hfinds⟩ := hbody
  rw [definition_eq]
  refine Finds.named (Finds.orElse ?_ _) _
  refine wholeRule_leads
    (O := fun step => ∃ b x, step = ⟨b, some (x, k)⟩ ∧ ∃ d, x = some d ∧ d.Writes ⟨name, kind, e⟩)
    hname hs fun span o ho => ?_
  rw [hgap]
  refine hfinds.bind fun x hx => (finds_gap _).bind fun _ _ => ?_
  rw [hk₁, dropGap_space, dropGap_solid (by decide)]
  refine (finds_sign "closing_brace" "\x7d" k).bind fun _ _ => ?_
  exact finds_pure (P := fun x : Option Definition => ∃ d, x = some d ∧ d.Writes ⟨name, kind, e⟩)
    ⟨_, rfl, rfl, ho, hx.2⟩ k

/-! ## Rules that cannot be read -/

theorem refuses_ruleDoc {c : Char} (hc : '/' ≠ c) (k : List Char) :
    (do ruleDoc; return none : Reader (Option Definition)).Refuses (c :: k) :=
  ((refuses_literal (w := "///") (drop?_head_ne hc _ k)).bind.named _).bind

/-- Where no name stands, and no comment that documents a rule, no rule is read. -/
theorem refuses_definition_head {c : Char} {s : List Char} (hname : name? (c :: s) = none)
    (hslash : '/' ≠ c) : (definition depth).Refuses (c :: s) := by
  rw [definition_eq]
  exact Refuses.named (Refuses.orElse_refuses (refuses_identifier hname).bind
    (refuses_ruleDoc hslash s)) _

/-- A rule whose name starts with `PUSH` cannot be read. -/
theorem refuses_definition_name (hname : IsPlainName name)
    (hp : startsWithPush name.toList = true) (hk : EndsName k) :
    (definition depth).Refuses (name.toList ++ k) := by
  have hpush : startsWithPush (name.toList ++ k) = true := by rw [startsWithPush_append hk, hp]
  obtain ⟨c, s, hs, hc, -⟩ := hname
  rw [hs] at hpush ⊢
  refine refuses_definition_head (name?_push hpush) ?_
  rintro rfl
  cases hc

/-- Without a sign of assignment behind its name, no rule is read. -/
theorem refuses_definition_gap (hname : IsRuleName name) {s : List Char} (hs : EndsName s)
    (hgap : ∀ t, dropGap s ≠ '=' :: t) : (definition depth).Refuses (name.toList ++ s) := by
  have hsign : (sign "assignment_operator" "=").Refuses (dropGap s) := by
    cases hdrop : dropGap s with
    | nil => exact refuses_sign rfl
    | cons c t =>
      refine refuses_sign_of_ne rfl ?_
      rintro rfl
      exact hgap t hdrop
  obtain ⟨c, t, ht, hc, -⟩ := id hname.1
  rw [definition_eq]
  refine Refuses.named (Refuses.orElse_refuses ((finds_identifier hname hs).then_refuses
    fun _ _ => (finds_gap _).then_refuses fun _ _ => hsign.bind) ?_) _
  rw [ht]
  refine refuses_ruleDoc ?_ _
  rintro rfl
  cases hc

/-- A rule whose body is not read up to its closing brace cannot be read. -/
theorem refuses_definition_body (hname : IsRuleName name) {s : List Char} (hs : OpensRule s kind k)
    (hbody : ∀ name span o, (ruleBody depth name span o).Refuses (dropGap k)) :
    (definition depth).Refuses (name.toList ++ s) := by
  obtain ⟨c, t, ht, hc, -⟩ := hname.1
  rw [definition_eq]
  refine Refuses.named (Refuses.orElse_refuses
    (wholeRule_leads (O := fun step => ∃ b, step = ⟨b, none⟩) hname hs
      fun span o _ => hbody name span o) ?_) _
  rw [ht]
  refine refuses_ruleDoc ?_ _
  rintro rfl
  cases hc

end Definitions

/-! ## Rows of names -/

section Rows

variable {inner : Reader Opened} {name : String} {k k' : List Char} {c : Char} {isChoice : Bool}

theorem readsOperand_ref (hname : IsRuleName name) :
    ReadsOperand inner name.toList (.ref name) :=
  readsOperand_operandText (n := 0) (fun e _ hn => absurd hn (Nat.not_le.2 e.size_pos))
    (e := .ref name) ⟨hname, Nat.le_refl 1, fun h => absurd h (by simp [Expr.strength])⟩

/-- Names behind the same infix sign. -/
def rowItems (isChoice : Bool) (names : List String) : List (Bool × List Char) :=
  names.map fun name => (isChoice, name.toList)

theorem readsItems_rowItems {names : List String} (h : ∀ name ∈ names, IsRuleName name) :
    ReadsItems inner (rowItems isChoice names) (names.map fun name => (isChoice, .ref name)) := by
  rw [ReadsItems, rowItems, List.forall₂_map_left_iff, List.forall₂_map_right_iff,
    List.forall₂_same]
  exact fun name hname => ⟨rfl, readsOperand_ref (h name hname)⟩

theorem refuses_expressionOf_push (hname : IsPlainName name)
    (hp : startsWithPush name.toList = true) (hk : Follows k c k') :
    (expressionOf inner).Refuses (name.toList ++ k) := by
  obtain ⟨d, s, hs, hd, -⟩ := id hname
  have hsolid := startsGap_of_continuesName (continuesName_of_startsName hd)
  refine Refuses.named ?_ _
  have hbar : '|' ≠ d := by
    rintro rfl
    cases hd
  rw [hs, List.cons_append]
  refine (refuses_sign_of_ne rfl hbar).opt.then_refuses fun _ _ => ?_
  refine (finds_gap _).then_refuses fun _ _ => Refuses.bind ?_
  rw [dropGap_solid hsolid, ← List.cons_append, ← hs]
  exact refuses_operand_push hname hp hk

/-- A row of names of which one starts with `PUSH` is not read up to its closing brace. -/
theorem refuses_ruleBody_row {first : String} {names : List String}
    (hplain : ∀ name ∈ first :: names, IsPlainName name)
    (hp : ∃ name ∈ first :: names, startsWithPush name.toList = true) (depth : Nat)
    (span : Span) (o : Option RuleKind) (k : List Char) :
    (ruleBody (depth + 1) name span o).Refuses
      (first.toList ++ (itemsText (rowItems isChoice names) ++ ' ' :: '\x7d' :: k)) := by
  have hend : Follows (' ' :: '\x7d' :: k) '\x7d' k := .of_space (by decide) k
  by_cases hfirst : startsWithPush first.toList = true
  · obtain ⟨c, k', hk, -⟩ := hend.itemsText (by decide) (rowItems isChoice names)
    exact (refuses_expressionOf_push (hplain first List.mem_cons_self) hfirst hk).bind
  -- the names in front of the first one that starts with `PUSH` are read
  · obtain ⟨bad, hbad⟩ : ∃ bad, names.find? (startsWithPush ·.toList) = some bad := by
      rw [← Option.isSome_iff_exists, List.find?_isSome]
      obtain ⟨name, hname, hpush⟩ := hp
      rcases List.mem_cons.1 hname with rfl | hname
      · exact absurd hpush hfirst
      · exact ⟨name, hname, hpush⟩
    obtain ⟨hpush, good, more, rfl, hgood⟩ := List.find?_eq_some_iff_append.1 hbad
    have hrule : ∀ name ∈ first :: good, IsRuleName name := by
      intro name hname
      rcases List.mem_cons.1 hname with rfl | hname
      · exact ⟨hplain _ List.mem_cons_self, Bool.eq_false_iff.2 hfirst⟩
      · exact ⟨hplain _ (List.mem_cons_of_mem _ (List.mem_append_left _ hname)),
          by simpa using hgood name hname⟩
    have hbadPlain : IsPlainName bad :=
      hplain bad (List.mem_cons_of_mem _ (List.mem_append_right _ List.mem_cons_self))
    obtain ⟨c, k', hk, -⟩ := hend.itemsText (by decide) (rowItems isChoice more)
    have hsplit : itemsText (rowItems isChoice (good ++ bad :: more)) ++ ' ' :: '\x7d' :: k =
        itemsText (rowItems isChoice good) ++
          (itemsText (rowItems isChoice (bad :: more)) ++ ' ' :: '\x7d' :: k) := by
      simp [rowItems, itemsText]
    have hdrop := dropGap_itemsText_cons (isChoice, bad.toList) (rowItems isChoice more)
      (' ' :: '\x7d' :: k)
    obtain ⟨d, s, hd, hd'⟩ := hend.itemsText (by decide) (rowItems isChoice (bad :: more))
    have hitems : ReadsItems (expression depth) (rowItems isChoice good) _ :=
      readsItems_rowItems fun name h => hrule name (List.mem_cons_of_mem _ h)
    obtain ⟨k₁, hk₁, hfinds⟩ := readsTo_expressionOf
      (readsOperand_ref (hrule first List.mem_cons_self)) hitems hd hd' (by
        rw [show rowItems isChoice (bad :: more) = (isChoice, bad.toList) :: rowItems isChoice more
          from rfl, hdrop]
        exact refuses_item_push hbadPlain hpush hk isChoice)
    rw [hsplit]
    refine hfinds.then_refuses fun _ _ => (finds_gap _).then_refuses fun _ _ => Refuses.bind ?_
    rw [hk₁, show rowItems isChoice (bad :: more) = (isChoice, bad.toList) :: rowItems isChoice more
      from rfl, hdrop]
    exact refuses_sign_of_ne (c := '\x7d') rfl (by cases isChoice <;> simp [signOf])

end Rows

/-! ## The names that are read -/

/-- Whatever the reader reads has `P`. -/
def Reader.Yields {α : Type} (r : Reader α) (P : α → Prop) : Prop :=
  ∀ s a b x rest, r s a = ⟨b, some (x, rest)⟩ → P x

namespace Reader.Yields

variable {α β : Type} {r t : Reader α} {P : α → Prop}

theorem bind (h : r.Yields P) {f : α → Reader β} {Q : β → Prop} (hf : ∀ x, P x → (f x).Yields Q) :
    (r >>= f).Yields Q := by
  intro s a b y rest e
  change Reader.bind r f s a = _ at e
  rw [Reader.bind] at e
  split at e
  · rename_i hr
    exact hf _ (h _ _ _ _ _ hr) _ _ _ _ _ e
  · cases e

theorem trivial (r : Reader α) : r.Yields fun _ => True := fun _ _ _ _ _ _ => True.intro

theorem pure {x : α} (h : P x) : (Pure.pure x : Reader α).Yields P := by
  rintro _ _ _ _ _ e
  cases e
  exact h

theorem orElse (h : r.Yields P) (ht : t.Yields P) : (r.orElse t).Yields P := by
  intro s a b x rest e
  rw [Reader.orElse] at e
  split at e
  · exact ht _ _ _ _ _ e
  · exact h _ _ _ _ _ e

theorem named (h : r.Yields P) (name : String) : (r.named name).Yields P := by
  intro s a b x rest e
  rw [Reader.named] at e
  split at e
  · cases e
  · exact h _ _ _ _ _ e

theorem located (h : r.Yields P) : r.located.Yields fun x => P x.1 := by
  intro s a b x rest e
  rw [Reader.located] at e
  split at e
  · rename_i hr
    cases e
    exact h _ _ _ _ _ hr
  · cases e

theorem manyAfterGap (h : r.Yields P) (n : Nat) :
    (Reader.manyAfterGap r n).Yields fun l => ∀ x ∈ l, P x := by
  induction n with
  | zero => exact pure fun _ hx => by cases hx
  | succ n ih =>
    have hr := (trivial gap).bind (f := fun _ => r) fun _ _ => h
    intro s a b l rest e
    rw [manyAfterGap_succ] at e
    split at e
    · rename_i hstep
      have hx := hr _ _ _ _ _ hstep
      split at e
      · rename_i hrest
        cases e
        exact List.forall_mem_cons.2 ⟨hx, ih _ _ _ _ _ hrest⟩
      · cases e
        exact List.forall_mem_singleton.2 hx
    · cases e
      exact fun _ hx => by cases hx

theorem many (h : r.Yields P) : r.many.Yields fun l => ∀ x ∈ l, P x := by
  intro s a b l rest e
  rw [Reader.many] at e
  split at e
  · rename_i hstep
    have hx := h _ _ _ _ _ hstep
    split at e
    · rename_i hrest
      cases e
      exact List.forall_mem_cons.2 ⟨hx, manyAfterGap h _ _ _ _ _ _ hrest⟩
    · cases e
      exact List.forall_mem_singleton.2 hx
  · cases e
    exact fun _ hx => by cases hx

end Reader.Yields

theorem isPlainName_of_name? {s rest : List Char} {name : String} (h : name? s = some (name, rest)) :
    IsPlainName name := by
  cases s with
  | nil => cases h
  | cons c s =>
    rw [name?] at h
    split at h
    · rename_i hc
      cases h
      exact ⟨c, s.takeWhile continuesName, String.toList_ofList, hc.1,
        List.all_eq_true.1 List.all_takeWhile⟩
    · cases h

theorem yields_definition (depth : Nat) :
    (definition depth).Yields fun x => ∀ d ∈ x, IsPlainName d.name := by
  have hname : (plain name?).Yields IsPlainName := fun s a b x rest e =>
    isPlainName_of_name? (congrArg Step.value e)
  have hid : identifier.Yields fun x => IsPlainName x.1 := hname.located.named _
  rw [definition_eq]
  refine ((hid.bind ?_).orElse ?_).named _
  · rintro ⟨name, span⟩ hname
    refine (Yields.trivial _).bind fun _ _ => (Yields.trivial _).bind fun _ _ => ?_
    refine (Yields.trivial _).bind fun _ _ => (Yields.trivial _).bind fun _ _ => ?_
    refine (Yields.trivial _).bind fun _ _ => (Yields.trivial _).bind fun _ _ => ?_
    refine (Yields.trivial _).bind fun _ _ => (Yields.trivial _).bind fun _ _ => ?_
    refine (Yields.trivial _).bind fun _ _ => (Yields.trivial _).bind fun _ _ => Yields.pure ?_
    rintro _ ⟨⟩
    exact hname
  · exact (Yields.trivial _).bind fun _ _ => Yields.pure fun _ h => by cases h

/-- All names that are read are plain. -/
theorem isPlainName_of_readGrammar {text : List Char} {ds : List Definition}
    (h : readGrammar text = .ok ds) : ∀ d ∈ ds, IsPlainName d.name := by
  have hy : (definitions (text.length + 1)).Yields fun ds => ∀ d ∈ ds, IsPlainName d.name := by
    refine (Yields.trivial _).bind fun _ _ => (Yields.trivial _).bind fun _ _ => ?_
    refine (Yields.trivial _).bind fun _ _ => (yields_definition _).many.bind fun rules hrules => ?_
    refine (Yields.trivial _).bind fun _ _ => (Yields.trivial _).bind fun _ _ => Yields.pure ?_
    intro d hd
    obtain ⟨x, hx, rfl⟩ := List.mem_filterMap.1 hd
    exact hrules _ hx d rfl
  rw [readGrammar] at h
  split at h
  · rename_i hr
    cases h
    exact hy _ _ _ _ _ hr
  · cases h

/-! ## Whole texts -/

/-- A rule as it is written in a grammar text, with what stands in front of it. -/
structure Paragraph where
  lead : List Char
  text : List Char
  rule : Rule

namespace Paragraph

/-- The text of a paragraph starts with a letter and stands behind a gap. -/
structure IsApart (p : Paragraph) : Prop where
  behindGap : ∀ s, dropGap (p.lead ++ (p.text ++ s)) = p.text ++ s
  head : ∃ c s, p.text = c :: s ∧ startsName c = true

/-- The text of a paragraph is read as the rule. -/
def Reads (depth : Nat) (p : Paragraph) : Prop :=
  ∀ s, (definition depth).Finds (p.text ++ s) (fun x => ∃ d, x = some d ∧ d.Writes p.rule) s

/-- The text of a paragraph is not read at all. -/
def Fails (depth : Nat) (p : Paragraph) : Prop := ∀ s, (definition depth).Refuses (p.text ++ s)

/-- The text of several paragraphs. -/
def join (ps : List Paragraph) : List Char := ps.flatMap fun p => p.lead ++ p.text

theorem IsApart.length_pos {p : Paragraph} (h : p.IsApart) : 0 < p.text.length := by
  obtain ⟨c, s, hs, -⟩ := h.head
  rw [hs]
  exact Nat.succ_pos _

/-- The gap in front of the first rule, without a comment that documents the grammar. -/
theorem IsApart.docs_leads {p : Paragraph} (hp : p.IsApart) (s : List Char) {β : Type}
    {O : Step β → Prop} {f : Reader β} (hf : ∀ a, O (f (p.text ++ s) a)) (a : Attempts) :
    O ((do gap; let _ ← many grammarDoc; gap; f) (p.lead ++ (p.text ++ s)) a) := by
  obtain ⟨c, t, ht, hc⟩ := hp.head
  refine (finds_gap _).leads (fun _ _ => ?_) a
  rw [hp.behindGap]
  have hdoc : grammarDoc.Refuses (p.text ++ s) := by
    rw [ht]
    refine (refuses_literal (w := "//!") (drop?_head_ne ?_ _ _)).bind.named _
    rintro rfl
    cases hc
  refine (finds_many_nil hdoc).leads fun _ _ => (finds_gap _).leads fun _ _ => ?_
  rw [ht, List.cons_append, dropGap_solid (startsGap_of_continuesName
    (continuesName_of_startsName hc)), ← List.cons_append, ← ht]
  exact hf

variable {depth : Nat} {p : Paragraph} {ps : List Paragraph} {k : List Char}

theorem finds_definitions (hapart : ∀ q ∈ p :: ps, q.IsApart) (hreads : ∀ q ∈ p :: ps, q.Reads depth)
    (hk : (definition depth).Refuses (dropGap k)) :
    (many (definition depth)).Finds (p.text ++ (join ps ++ k))
      (List.Forall₂ (fun x q => ∃ d, x = some d ∧ d.Writes q.rule) · (p :: ps)) k :=
  finds_many_words Paragraph.lead Paragraph.text (fun q hq s => hreads q hq s)
    (fun q hq => (hapart q (List.mem_cons_of_mem _ hq)).behindGap)
    (fun q hq => (hapart q (List.mem_cons_of_mem _ hq)).length_pos) hk

theorem writes_filterMap {xs : List (Option Definition)}
    (h : List.Forall₂ (fun x q => ∃ d, x = some d ∧ d.Writes q.rule) xs ps) :
    List.Forall₂ Definition.Writes (xs.filterMap id) (ps.map Paragraph.rule) := by
  induction h with
  | nil => exact .nil
  | cons hx _ ih =>
    obtain ⟨d, rfl, hd⟩ := hx
    exact .cons hd ih

/-- **A text of paragraphs that are read is read as their rules.** -/
theorem readGrammar_join (hapart : ∀ q ∈ p :: ps, q.IsApart)
    (hreads : ∀ q ∈ p :: ps, q.Reads ((join (p :: ps) ++ ['\n']).length + 1)) :
    ∃ ds, readGrammar (join (p :: ps) ++ ['\n']) = .ok ds ∧
      List.Forall₂ Definition.Writes ds ((p :: ps).map Paragraph.rule) := by
  generalize hdepth : (join (p :: ps) ++ ['\n']).length + 1 = depth at hreads
  have hend : (definition depth).Refuses (dropGap ['\n']) := by
    rw [definition_eq]
    exact Refuses.named (Refuses.orElse_refuses (refuses_identifier rfl).bind
      ((refuses_literal (w := "///") rfl).bind.named _).bind) _
  have htext : join (p :: ps) ++ ['\n'] = p.lead ++ (p.text ++ (join ps ++ ['\n'])) := by
    simp [join]
  have hfinds : (definitions depth).Finds (join (p :: ps) ++ ['\n'])
      (List.Forall₂ Definition.Writes · ((p :: ps).map Paragraph.rule)) [] := by
    rw [htext]
    refine (hapart p List.mem_cons_self).docs_leads (O := fun step => ∃ b x, step = ⟨b, some (x, [])⟩ ∧
      List.Forall₂ Definition.Writes x ((p :: ps).map Paragraph.rule)) _ ?_
    refine (finds_definitions hapart hreads hend).bind fun xs hxs => (finds_gap _).bind fun _ _ => ?_
    refine ((finds_plain (P := fun _ => True) rfl trivial).named _).bind fun _ _ => ?_
    exact finds_pure (P := (List.Forall₂ Definition.Writes · ((p :: ps).map Paragraph.rule)))
      (writes_filterMap hxs) []
  obtain ⟨b, ds, e, hds⟩ := hfinds (Attempts.none (join (p :: ps) ++ ['\n']).length)
  exact ⟨ds, by rw [readGrammar, hdepth, e], hds⟩

/-- **A text is refused if one of its paragraphs is**, and those in front of it are read. -/
theorem readGrammar_join_error {bad : Paragraph} {more : List Paragraph}
    (hapart : ∀ q ∈ p :: (ps ++ bad :: more), q.IsApart)
    (hreads : ∀ q ∈ p :: ps, q.Reads ((join (p :: (ps ++ bad :: more)) ++ ['\n']).length + 1))
    (hbad : bad.Fails ((join (p :: (ps ++ bad :: more)) ++ ['\n']).length + 1)) :
    ∃ a, readGrammar (join (p :: (ps ++ bad :: more)) ++ ['\n']) = .error a := by
  generalize hdepth : (join (p :: (ps ++ bad :: more)) ++ ['\n']).length + 1 = depth at hreads hbad
  have hbadApart := hapart bad (by simp)
  have htext : join (p :: (ps ++ bad :: more)) ++ ['\n'] =
      p.lead ++ (p.text ++ (join ps ++ (bad.lead ++ (bad.text ++ (join more ++ ['\n']))))) := by
    simp [join]
  have hrefuses : (definitions depth).Refuses (join (p :: (ps ++ bad :: more)) ++ ['\n']) := by
    rw [htext]
    refine (hapart p List.mem_cons_self).docs_leads (O := fun step => ∃ b, step = ⟨b, none⟩) _ ?_
    refine (finds_definitions (k := bad.lead ++ (bad.text ++ (join more ++ ['\n'])))
      (fun q hq => hapart q (List.mem_cons.2 ((List.mem_cons.1 hq).imp_right
        (List.mem_append_left _)))) hreads ?_).then_refuses fun xs _ => ?_
    · rw [hbadApart.behindGap]
      exact hbad _
    · refine (finds_gap _).then_refuses fun _ _ => Refuses.bind ((refuses_plain ?_).named _)
      obtain ⟨c, s, hs, -⟩ := hbadApart.head
      rw [hbadApart.behindGap, hs]
      rfl
  obtain ⟨b, e⟩ := hrefuses (Attempts.none (join (p :: (ps ++ bad :: more)) ++ ['\n']).length)
  exact ⟨b, by rw [readGrammar, hdepth, e]⟩

end Paragraph

end GrammarKit.Peg
