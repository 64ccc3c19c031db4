import GrammarKit.Proofs.Compiler.Pipeline
import GrammarKit.Proofs.Parser.LeftRecursion
import GrammarKit.Proofs.Parser.Printing
import GrammarKit.Proofs.Peg.Blanks
import Mathlib.Data.List.DropRight

/-!
# Texts with the same tokens

What is read of a text depends on what tokens take of it, and on nothing else. Two texts that are
followed side by side, in which every token takes the same wherever one may stand, have the same
value, whatever blanks they have between their tokens.

* `Model.Respaces`: relations between texts in which tokens take the same.
* `Model.Meet`, `Model.TakesAlike`: the largest one, by the places behind the same tokens.
* `alike_readNode`: every node reads two such texts alike.
* **`Model.Respaces.parse_eq`**: they have the same value.
* `wordsIn`, `Model.tokensAvoidBlanks`: texts with the same words, where tokens take no blanks.
-/

namespace GrammarKit

open Peg

/-! ## Texts in which tokens take the same -/

/-- The name of a token. -/
def Model.IsToken (m : Model) (name : String) : Prop :=
  ∃ n pattern, m.node? name = some n ∧ n.body = .token pattern

/-- **A relation between texts in which all tokens take the same**, at their starts and behind each
token that can be taken there. -/
structure Model.Respaces (m : Model) (takes : String → Taking)
    (R : List Char → List Char → Prop) : Prop where
  /-- The texts start behind blanks. -/
  trimmed : ∀ {s s'}, R s s' → dropBlanks s = s ∧ dropBlanks s' = s'
  ends : ∀ {s s'}, R s s' → (s = [] ↔ s' = [])
  token : ∀ {name}, m.IsToken name → ∀ {s s'}, R s s' →
    Reading.Alike (fun t t' => front s t = front s' t' ∧ R (dropBlanks t) (dropBlanks t'))
      (takes name s) (takes name s')

theorem dropBlanks_dropBlanks (s : List Char) : dropBlanks (dropBlanks s) = dropBlanks s :=
  List.dropWhile_idempotent _ _

theorem dropBlanks_cons_eq_self_iff {c : Char} {s : List Char} :
    dropBlanks (c :: s) = c :: s ↔ Text.isBlank c = false := by
  rw [dropBlanks, List.dropWhile_eq_self_iff]
  simp

/-- The places of two texts that the same tokens lead to. -/
inductive Model.Meet (m : Model) (takes : String → Taking) (s s' : List Char) :
    List Char → List Char → Prop
  | start : Meet m takes s s' (dropBlanks s) (dropBlanks s')
  | token {name : String} {u u' t t' : List Char} : Meet m takes s s' u u' → m.IsToken name →
    takes name u = .read t → takes name u' = .read t' →
    Meet m takes s s' (dropBlanks t) (dropBlanks t')

/-- **Every token takes the same of both texts**, in all places that the same tokens lead to, and
neither text ends before the other one. -/
def Model.TakesAlike (m : Model) (takes : String → Taking) (s s' : List Char) : Prop :=
  ∀ {u u'}, m.Meet takes s s' u u' → (u = [] ↔ u' = []) ∧ ∀ {name}, m.IsToken name →
    Reading.Alike (fun t t' => front u t = front u' t') (takes name u) (takes name u')

/-- Places of texts that tokens take the same of. -/
theorem Model.TakesAlike.respaces {m : Model} {takes : String → Taking} {s s' : List Char}
    (h : m.TakesAlike takes s s') : m.Respaces takes (m.Meet takes s s') where
  trimmed hu := by
    cases hu with
    | start => exact ⟨dropBlanks_dropBlanks s, dropBlanks_dropBlanks s'⟩
    | token => exact ⟨dropBlanks_dropBlanks _, dropBlanks_dropBlanks _⟩
  ends hu := (h hu).1
  token {name} hname u u' hu := by
    have halike := (h hu).2 hname
    generalize hread : takes name u = r, hread' : takes name u' = r' at halike
    cases halike with
    | read hfront => exact .read ⟨hfront, .token hu hname hread hread'⟩
    | refused => exact .refused
    | stuck => exact .stuck

section Alike

variable {m : Model} {startRule : String} {takes : String → Taking}
  {R : List Char → List Char → Prop}

/-- The trees that were read have the same value, and the same tokens stand behind them. -/
def SameRead (shapes : Table Shape) (input input' : List Char) (R : List Char → List Char → Prop)
    (y y' : Tree × List Char) : Prop :=
  (∃ v, valueOf shapes input y.1 = .ok v ∧ valueOf shapes input' y'.1 = .ok v) ∧
    R (dropBlanks y.2) (dropBlanks y'.2)

/-- Rows are read alike if their parts are. -/
theorem alike_readRow (htrimmed : ∀ {s s'}, R s s' → dropBlanks s = s ∧ dropBlanks s' = s')
    {shapes : Table Shape} {input input' : List Char}
    {read : String → List Char → Reading (Tree × List Char)} {names : List String}
    (hread : ∀ x ∈ names, ∀ {s s'}, R s s' →
      Reading.Alike (SameRead shapes input input' R) (read x s) (read x s'))
    {s s' : List Char} (hs : R s s') :
    Reading.Alike (fun z z' => (∃ values,
        List.Forall₂ (fun tree v => valueOf shapes input tree = .ok v) z.1 values ∧
        List.Forall₂ (fun tree v => valueOf shapes input' tree = .ok v) z'.1 values ∧
        values.length = names.length) ∧ R (dropBlanks z.2) (dropBlanks z'.2))
      (readRow read names s) (readRow read names s') := by
  induction names generalizing s s' with
  | nil =>
    refine .read ⟨⟨[], .nil, .nil, rfl⟩, ?_⟩
    rw [(htrimmed hs).1, (htrimmed hs).2]
    exact hs
  | cons x names ih =>
    have hx := hread x List.mem_cons_self hs
    cases names with
    | nil =>
      rw [readRow, readRow]
      refine hx.bind ?_
      rintro ⟨tree, t⟩ ⟨tree', t'⟩ ⟨⟨v, hv, hv'⟩, ht⟩
      exact .read ⟨⟨[v], .cons hv .nil, .cons hv' .nil, rfl⟩, ht⟩
    | cons y names =>
      rw [readRow, readRow]
      · refine hx.bind ?_
        rintro ⟨tree, t⟩ ⟨tree', t'⟩ ⟨⟨v, hv, hv'⟩, ht⟩
        refine (ih (fun z hz => hread z (List.mem_cons_of_mem _ hz)) ht).bind ?_
        rintro ⟨trees, u⟩ ⟨trees', u'⟩ ⟨⟨values, hvalues, hvalues', hlength⟩, hu⟩
        exact .read ⟨⟨v :: values, .cons hv hvalues, .cons hv' hvalues', congrArg Nat.succ hlength⟩,
          hu⟩
      · simp
      · simp

theorem alike_readFirst {Q : Tree × List Char → Tree × List Char → Prop}
    {read : String → List Char → Reading (Tree × List Char)} {names : List String}
    {s s' : List Char} (hread : ∀ x ∈ names, Reading.Alike Q (read x s) (read x s')) :
    Reading.Alike Q (readFirst read names s) (readFirst read names s') := by
  induction names with
  | nil => exact .refused
  | cons x names ih =>
    obtain ⟨hx, hnames⟩ := List.forall_mem_cons.1 hread
    exact hx.orElse (ih hnames)

/-- **Every node reads the two texts alike**, through as many nested nodes. -/
theorem alike_readNode (h : m.IsNamed startRule) (hv : m.IsValid) (hR : m.Respaces takes R)
    (input input' : List Char) (depth : Nat) (name : String) {s s' : List Char} (hs : R s s') :
    Reading.Alike (SameRead (.ofList m.shapes) input input' R) (m.readNode takes depth name s)
      (m.readNode takes depth name s') := by
  induction depth generalizing name s s' with
  | zero => exact .stuck
  | succ depth ih =>
    cases hn : m.node? name with
    | none =>
      rw [Model.readNode, Model.readNode, hn]
      exact .stuck
    | some n =>
      cases hb : n.body with
      | token pattern =>
        rw [Model.readNode_token hn _ _ _ hb, Model.readNode_token hn _ _ _ hb]
        refine (hR.token ⟨n, pattern, hn, hb⟩ hs).bind ?_
        rintro t t' ⟨hfront, ht⟩
        refine .read ⟨⟨_, h.valueOf_token hn hb .., ?_⟩, ht⟩
        rw [hfront]
        exact h.valueOf_token hn hb ..
      | deduction elements =>
        rw [Model.readNode_deduction hn _ _ _ hb, Model.readNode_deduction hn _ _ _ hb]
        refine (alike_readRow hR.trimmed (fun x _ => ih x) hs).bind ?_
        rintro ⟨trees, t⟩ ⟨trees', t'⟩ ⟨⟨values, hvalues, hvalues', hlength⟩, ht⟩
        have hlength' : elements.length = values.length := by rw [hlength, List.length_map]
        exact .read ⟨⟨_, h.valueOf_deduction hn hv hb hvalues hlength' ..,
          h.valueOf_deduction hn hv hb hvalues' hlength' ..⟩, ht⟩
      | union members =>
        rw [Model.readNode_union hn _ _ _ hb, Model.readNode_union hn _ _ _ hb]
        exact alike_readFirst fun x _ => ih x hs

end Alike

/-! ## Whole texts -/

section Parse

variable {m : Model} {c : GrammarConfig} {g : Grammar} {warnings : List String} {serial : Nat}
  {p : CompiledParser} (hname : '\n' ∉ m.name.toList) (hversion : '\n' ∉ m.version.toList)
  (hg : generateGrammar m c = .done g warnings) (hp : g.source.compile serial = .ok p)

include hname hversion hg hp

/-- A parser that has made a value of one text has an answer on every other one. -/
theorem parse_ne_stuck_of_value {text : String} {v : Json} (h : p.parse text = .value v)
    (text' : String) : p.parse text' ≠ .stuck := by
  have hplain : IsPlainName g.startRule := by
    by_contra hs
    rw [parse_eq_stuck hg hp hs text] at h
    cases h
  refine parse_ne_stuck hg hp hname hversion hplain ?_ text'
  rw [(generateGrammar_eq_done_left hg).2]
  exact leftRecursive_eq_nil_of_compile hname hversion hg hp

/-- A text that its model reads has the value of the tree that is read. -/
theorem parse_eq_value_of_readNode {text : String} (hanswer : p.parse text ≠ .stuck)
    {depth : Nat} {tree : Tree} {t : List Char}
    (hread : m.readNode (takesOf (m.routines c.startRule)) depth m.start (dropBlanks text.toList) =
      .read (tree, t)) (hend : dropBlanks t = []) {v : Json}
    (hvalue : valueOf (.ofList m.shapes) text.toList tree = .ok v) : p.parse text = .value v := by
  obtain ⟨hv, hnamed, -⟩ := generateGrammar_eq_done hg
  have hengine : Peg.parseWith p.routines p.startRule text.toList ≠ .stuck :=
    fun hstuck => hanswer (CompiledParser.parse_eq_stuck_iff.2 hstuck)
  obtain ⟨hroutines, hstart, hshapes⟩ := parser_eq hname hversion hg hp hengine
  rw [hroutines, hstart] at hengine
  have htext : m.readText (takesOf (m.routines c.startRule)) depth text.toList = .read tree := by
    rw [Model.readText, hread, Reading.bind_read, if_pos hend]
  have hagrees : Agrees True True
      ((m.readText (takesOf (m.routines c.startRule)) depth text.toList).bind fun tree =>
        .read (startTrees c.startRule text.toList tree, []))
      (Peg.parseWith (m.routines c.startRule) c.startRule text.toList) :=
    hnamed.agrees_parseWith hv text.toList (.inr trivial) (.inr trivial)
  rw [htext, Reading.bind_read] at hagrees
  have hmatched : ∃ st, Peg.parseWith (m.routines c.startRule) c.startRule text.toList =
      .matched (startTrees c.startRule text.toList tree) st := by
    generalize Peg.parseWith (m.routines c.startRule) c.startRule text.toList = o
      at hagrees hengine
    cases hagrees with
    | read trees rest attempts => exact ⟨_, rfl⟩
    | runStuck _ _ => exact absurd rfl hengine
  obtain ⟨st, hmatched⟩ := hmatched
  rw [CompiledParser.parse, hroutines, hstart, hshapes]
  simp only [hmatched, valueOfParse_startTrees (hnamed.name_of_readNode hread), hvalue]

/-- **Two texts with the same tokens have the same value.** -/
theorem Model.Respaces.parse_eq {R : List Char → List Char → Prop}
    (hR : m.Respaces (takesOf (m.routines c.startRule)) R) {text text' : String}
    (htexts : R (dropBlanks text.toList) (dropBlanks text'.toList)) {v : Json}
    (h : p.parse text = .value v) : p.parse text' = .value v := by
  obtain ⟨hv, hnamed, -⟩ := generateGrammar_eq_done hg
  obtain ⟨depth, tree, t, hread, hend, hvalue⟩ := readNode_of_value hname hversion hg hp h
  have halike := alike_readNode hnamed hv hR text.toList text'.toList depth m.start htexts
  rw [hread] at halike
  obtain ⟨⟨tree', t'⟩, hread', ⟨v', hv', hvalue'⟩, ht⟩ := halike.exists_read
  obtain rfl : v = v' := Except.ok.inj (hvalue.symm.trans hv')
  exact parse_eq_value_of_readNode hname hversion hg hp
    (parse_ne_stuck_of_value hname hversion hg hp h text') hread' ((hR.ends ht).1 hend) hvalue'

end Parse

/-! ## Texts with the same words -/

/-- The words of a text, which blanks stand between. -/
def wordsIn (s : List Char) : List (List Char) :=
  (s.splitOnP Text.isBlank).filter (· ≠ [])

theorem wordsIn_cons {c : Char} (hc : Text.isBlank c = true) (s : List Char) :
    wordsIn (c :: s) = wordsIn s := by
  rw [wordsIn, List.splitOnP_cons_eq_if_modifyHead, if_pos hc]
  rfl

theorem wordsIn_append {w u : List Char} (hw : IsSolid w) (hne : w ≠ []) (hu : EndsWord u) :
    wordsIn (w ++ u) = w :: wordsIn u := by
  cases u with
  | nil =>
    rw [List.append_nil, wordsIn, List.splitOnP_eq_singleton hw, List.filter_cons_of_pos (by simpa)]
    rfl
  | cons c u =>
    have hc : Text.isBlank c = true := hu c rfl
    rw [wordsIn_cons hc, wordsIn, List.splitOnP_append_cons_of_forall_mem hw c hc,
      List.filter_cons_of_pos (by simpa)]
    rfl

theorem wordsIn_dropBlanks (s : List Char) : wordsIn (dropBlanks s) = wordsIn s := by
  induction s with
  | nil => rfl
  | cons c s ih =>
    by_cases hc : Text.isBlank c = true
    · rw [wordsIn_cons hc, ← ih, dropBlanks, List.dropWhile_cons_of_pos hc]
      rfl
    · rw [dropBlanks, List.dropWhile_cons_of_neg hc]

/-- Behind blanks, a text is empty or starts with its first word. -/
theorem exists_word {s : List Char} (hs : dropBlanks s = s) (hne : s ≠ []) :
    ∃ w u, s = w ++ u ∧ w ≠ [] ∧ IsSolid w ∧ EndsWord u := by
  refine ⟨s.takeWhile fun c => !Text.isBlank c, s.dropWhile fun c => !Text.isBlank c,
    List.takeWhile_append_dropWhile.symm, ?_, fun c hc => ?_, fun c hc => ?_⟩
  · obtain ⟨c, s, rfl⟩ := List.exists_cons_of_ne_nil hne
    have hc := dropBlanks_cons_eq_self_iff.1 hs
    rw [List.takeWhile_cons_of_pos (by simp [hc])]
    exact List.cons_ne_nil _ _
  · simpa using List.all_eq_true.1 List.all_takeWhile c hc
  · have := List.head?_dropWhile_not (fun c => !Text.isBlank c) s
    rw [Option.mem_def.1 hc] at this
    simpa using this

/-- Behind blanks, both texts have the same words. -/
def SameWords (s s' : List Char) : Prop :=
  wordsIn s = wordsIn s' ∧ dropBlanks s = s ∧ dropBlanks s' = s'

theorem sameWords_dropBlanks {s s' : List Char} (h : wordsIn s = wordsIn s') :
    SameWords (dropBlanks s) (dropBlanks s') :=
  ⟨by rw [wordsIn_dropBlanks, wordsIn_dropBlanks, h], dropBlanks_dropBlanks s,
    dropBlanks_dropBlanks s'⟩

/-- Texts with the same words are both empty, or start with the same word. -/
theorem SameWords.cases {s s' : List Char} (h : SameWords s s') :
    s = [] ∧ s' = [] ∨ ∃ w u u', s = w ++ u ∧ s' = w ++ u' ∧ w ≠ [] ∧ IsSolid w ∧ EndsWord u ∧
      EndsWord u' ∧ wordsIn u = wordsIn u' := by
  obtain ⟨hwords, hs, hs'⟩ := h
  by_cases hne : s = []
  · by_cases hne' : s' = []
    · exact .inl ⟨hne, hne'⟩
    · obtain ⟨w, u, rfl, hw, hsolid, hu⟩ := exists_word hs' hne'
      rw [hne, wordsIn_append hsolid hw hu] at hwords
      cases hwords
  · obtain ⟨w, u, rfl, hw, hsolid, hu⟩ := exists_word hs hne
    by_cases hne' : s' = []
    · rw [hne', wordsIn_append hsolid hw hu] at hwords
      cases hwords
    · obtain ⟨w', u', rfl, hw', hsolid', hu'⟩ := exists_word hs' hne'
      rw [wordsIn_append hsolid hw hu, wordsIn_append hsolid' hw' hu', List.cons.injEq] at hwords
      obtain ⟨rfl, hwords⟩ := hwords
      exact .inr ⟨w, u, u', rfl, rfl, hw, hsolid, hu, hu', hwords⟩

/-- Whether the plans of all tokens take no blanks. -/
def Model.tokensAvoidBlanks (m : Model) (routines : List Routine) : Bool :=
  m.nodes.entries.all fun e =>
    match e.2.body with
    | .token _ => (routineNamed? routines e.1).any fun r => r.plan.avoidsBlanks
    | _ => true

/-- **Tokens that take no blanks take the same in texts with the same words.** -/
theorem Model.respaces_sameWords {m : Model} {routines : List Routine}
    (h : m.tokensAvoidBlanks routines = true) : m.Respaces (takesOf routines) SameWords where
  trimmed hs := hs.2
  ends hs := by
    obtain ⟨rfl, rfl⟩ | ⟨w, u, u', rfl, rfl, hw, -⟩ := hs.cases
    · rfl
    · simp [hw]
  token {name} hname s s' hs := by
    obtain ⟨n, pattern, hn, hb⟩ := hname
    have htoken := List.all_eq_true.1 h _ (node?_eq_some_iff.1 hn)
    simp only [hb, Option.any_eq_true] at htoken
    obtain ⟨r, hr, hblanks⟩ := htoken
    have hkeeps : (takesOf routines name).KeepsToWord := by
      rw [takesOf, hr]
      exact Plan.keepsToWord_takes hblanks
    obtain ⟨w, u, u', rfl, rfl, hsolid, hu, hu', hwords⟩ : ∃ w u u', s = w ++ u ∧ s' = w ++ u' ∧
        IsSolid w ∧ EndsWord u ∧ EndsWord u' ∧ wordsIn u = wordsIn u' := by
      obtain ⟨rfl, rfl⟩ | ⟨w, u, u', hw, hw', -, hrest⟩ := hs.cases
      · exact ⟨[], [], [], rfl, rfl, isSolid_nil, endsWord_nil, endsWord_nil, rfl⟩
      · exact ⟨w, u, u', hw, hw', hrest⟩
    refine (hkeeps w u u' hsolid hu hu').mono ?_
    rintro _ _ ⟨z, ⟨x, rfl⟩, rfl, rfl⟩
    refine ⟨?_, sameWords_dropBlanks ?_⟩
    · rw [List.append_assoc, List.append_assoc, front_append, front_append]
    · by_cases hz : z = []
      · rw [hz]
        exact hwords
      · have hsolid' : IsSolid z := hsolid.suffix (List.suffix_append x z)
        rw [wordsIn_append hsolid' hz hu, wordsIn_append hsolid' hz hu', hwords]

end GrammarKit
