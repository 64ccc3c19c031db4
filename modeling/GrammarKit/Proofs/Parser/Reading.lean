import GrammarKit.Proofs.Parser.Routines
import GrammarKit.Proofs.Peg.Depth

/-!
# Reading a text by a model

What the parser of a model does can be said on the model itself: a token takes the front of a text,
a deduction reads its elements one after the other with blanks between them, and a union reads the
first of its members that can be read. Neither the remembered texts nor the failed attempts have a
say in it.

* `dropBlanks`, `Peg.front`: the text behind blanks, and the text that was taken.
* `Model.readNode`: what a node reads, through a bounded number of nested nodes.
* `Agrees`, `Run.Tracks`: a run that does what a reading says, where either of the two may run out
  of nested calls before the other; with a lemma per operator.
* **`tracks_runRule`**: the engine reads a node as the model says.
* **`agrees_parseWith`**: the engine reads a whole text as the model says.
-/

namespace GrammarKit

open Peg

/-! ## Readings -/

/-- The text behind the blanks in front. -/
def dropBlanks (s : List Char) : List Char := s.dropWhile Text.isBlank

/-- What was taken of the text `s` if `t` is left. -/
def Peg.front (s t : List Char) : String := String.ofList (s.take (s.length - t.length))

/-- The names one after the other, with blanks between them. -/
def readRow (read : String → List Char → Reading (Tree × List Char)) :
    List String → List Char → Reading (List Tree × List Char)
  | [], s => .read ([], s)
  | [x], s => (read x s).bind fun y => .read ([y.1], y.2)
  | x :: xs, s => (read x s).bind fun y =>
      (readRow read xs (dropBlanks y.2)).bind fun z => .read (y.1 :: z.1, z.2)

/-- The first of the names that can be read. -/
def readFirst (read : String → List Char → Reading (Tree × List Char)) :
    List String → List Char → Reading (Tree × List Char)
  | [], _ => .refused
  | x :: xs, s => (read x s).orElse (readFirst read xs s)

/-- **What a node reads**, where `takes` says what tokens take, through fewer than `depth` nested
nodes: its tree, and the text that is left. -/
def Model.readNode (m : Model) (takes : String → Taking) :
    (depth : Nat) → String → List Char → Reading (Tree × List Char)
  | 0, _, _ => .stuck
  | depth + 1, name, s =>
    match (m.node? name).map Node.body with
    | some (.token _) =>
      (takes name s).bind fun t => .read (.node name s.length (front s t) [], t)
    | some (.deduction elements) =>
      (readRow (m.readNode takes depth) (elements.map Element.target) s).bind fun z =>
        .read (.node name s.length (front s z.2) z.1, z.2)
    | some (.union members) => readFirst (m.readNode takes depth) members s
    | none => .stuck

section

variable {m : Model} {name : String} {n : Node} (hn : m.node? name = some n)
  (takes : String → Taking) (depth : Nat) (s : List Char)

include hn

theorem Model.readNode_token {pattern : Pattern} (hb : n.body = .token pattern) :
    m.readNode takes (depth + 1) name s =
      (takes name s).bind fun t => .read (.node name s.length (front s t) [], t) := by
  rw [readNode, hn, Option.map_some, hb]

theorem Model.readNode_deduction {elements : List Element} (hb : n.body = .deduction elements) :
    m.readNode takes (depth + 1) name s =
      (readRow (m.readNode takes depth) (elements.map Element.target) s).bind fun z =>
        .read (.node name s.length (front s z.2) z.1, z.2) := by
  rw [readNode, hn, Option.map_some, hb]

theorem Model.readNode_union {members : List String} (hb : n.body = .union members) :
    m.readNode takes (depth + 1) name s = readFirst (m.readNode takes depth) members s := by
  rw [readNode, hn, Option.map_some, hb]

end

/-- **What a model reads of a whole text.** -/
def Model.readText (m : Model) (takes : String → Taking) (depth : Nat) (s : List Char) :
    Reading Tree :=
  (m.readNode takes depth m.start (dropBlanks s)).bind fun y =>
    if dropBlanks y.2 = [] then .read y.1 else .refused

/-- What the routine of a name takes. -/
def takesOf (routines : List Routine) (name : String) : Taking :=
  match routineNamed? routines name with
  | some r => r.plan.takes
  | none => fun _ => .stuck

/-! ## Runs that do what readings say -/

/-- **The end of a run is that of a reading**, but for runs without an answer, if `a`, and for
readings without one, if `b`. -/
inductive Agrees (a b : Prop) : Reading (List Tree × List Char) → Outcome → Prop
  | read (trees : List Tree) (rest : List Char) (attempts : Attempts) :
    Agrees a b (.read (trees, rest)) (.matched trees ⟨rest, [], attempts⟩)
  | refused (attempts : Attempts) : Agrees a b .refused (.failed [] attempts)
  | stuck : Agrees a b .stuck .stuck
  | runStuck (r : Reading (List Tree × List Char)) : a → Agrees a b r .stuck
  | readingStuck (o : Outcome) : b → Agrees a b .stuck o

/-- The run ends as the reading does, wherever nothing is remembered. -/
def Peg.Run.Tracks (a b : Prop) (r : Run) (f : List Char → Reading (List Tree × List Char)) :
    Prop := ∀ st, st.stack = [] → Agrees a b (f st.rest) (r st)

namespace Peg.Run.Tracks

variable {a b : Prop} {r t : Run} {f g : List Char → Reading (List Tree × List Char)}

theorem of_lifts {h : Taking} (hr : r.Lifts h) :
    r.Tracks a b fun s => (h s).bind fun t => .read ([], t) := by
  rintro ⟨rest, stack, attempts⟩ (rfl : stack = [])
  rw [hr]
  show Agrees a b ((h rest).bind _) _
  cases h rest with
  | read t => exact .read [] t attempts
  | refused => exact .refused attempts
  | stuck => exact .stuck

theorem seq (hr : r.Tracks a b f) (ht : t.Tracks a b g) :
    (r.seq t).Tracks a b fun s =>
      (f s).bind fun x => (g x.2).bind fun y => .read (x.1 ++ y.1, y.2) := by
  rintro ⟨rest, stack, attempts⟩ (rfl : stack = [])
  have h := hr ⟨rest, [], attempts⟩ rfl
  simp only [Run.seq, Run.undoing]
  generalize r ⟨rest, [], attempts⟩ = o at h ⊢
  generalize f rest = x at h ⊢
  cases h with
  | refused attempts => exact .refused attempts
  | stuck => exact .stuck
  | runStuck _ ha => exact .runStuck _ ha
  | readingStuck _ hb => exact .readingStuck _ hb
  | read trees rest attempts =>
    have h := ht ⟨rest, [], attempts⟩ rfl
    simp only [Outcome.andThen, Reading.bind_read]
    generalize t ⟨rest, [], attempts⟩ = o at h ⊢
    generalize g rest = y at h ⊢
    cases h with
    | read more rest attempts => exact .read (trees ++ more) rest attempts
    | refused attempts => exact .refused attempts
    | stuck => exact .stuck
    | runStuck _ ha => exact .runStuck _ ha
    | readingStuck _ hb => exact .readingStuck _ hb

theorem choice (hr : r.Tracks a b f) (ht : t.Tracks a b g) :
    (r.choice t).Tracks a b fun s => (f s).orElse (g s) := by
  rintro ⟨rest, stack, attempts⟩ (rfl : stack = [])
  have h := hr ⟨rest, [], attempts⟩ rfl
  simp only [Run.choice]
  generalize r ⟨rest, [], attempts⟩ = o at h ⊢
  generalize f rest = x at h ⊢
  cases h with
  | read trees rest attempts => exact .read trees rest attempts
  | refused attempts => exact ht ⟨rest, [], attempts⟩ rfl
  | stuck => exact .stuck
  | runStuck _ ha => exact .runStuck _ ha
  | readingStuck _ hb => exact .readingStuck _ hb

theorem shown (hr : r.Tracks a b f) (name : String) :
    (Run.shown {} name r).Tracks a b fun s =>
      (f s).bind fun x => .read ([.node name s.length (front s x.2) x.1], x.2) := by
  rintro ⟨rest, stack, attempts⟩ (rfl : stack = [])
  have h := hr ⟨rest, [], attempts⟩ rfl
  simp only [Run.shown]
  generalize r ⟨rest, [], attempts⟩ = o at h ⊢
  generalize f rest = x at h ⊢
  cases h with
  | read trees rest attempts => exact .read _ rest _
  | refused attempts => exact .refused _
  | stuck => exact .stuck
  | runStuck _ ha => exact .runStuck _ ha
  | readingStuck _ hb => exact .readingStuck _ hb

theorem congr (hr : r.Tracks a b f) (h : ∀ s, f s = g s) : r.Tracks a b g :=
  fun st hst => h st.rest ▸ hr st hst

end Peg.Run.Tracks

/-! ## Rows and choices of names -/

section Chains

variable {a b : Prop} {gap : Context → Run} {call : Context → String → Run}
  {read : String → List Char → Reading (Tree × List Char)}

/-- The reading of a single tree as one of several. -/
def Peg.Reading.single (r : Reading (Tree × List Char)) : Reading (List Tree × List Char) :=
  r.bind fun y => .read ([y.1], y.2)

theorem tracks_chain_seq (hgap : (gap {}).Tracks a b fun s => .read ([], dropBlanks s))
    {first : String} {names : List String}
    (hcall : ∀ x ∈ first :: names, (call {} x).Tracks a b fun s => (read x s).single) :
    ((Plan.chain false first names).run gap call {}).Tracks a b
      (readRow read (first :: names)) := by
  induction names generalizing first with
  | nil => exact hcall first List.mem_cons_self
  | cons name names ih =>
    have hrest := ih fun x hx => hcall x (List.mem_cons_of_mem _ hx)
    refine ((hcall first List.mem_cons_self).seq (hgap.seq hrest)).congr fun s => ?_
    rw [readRow, Reading.single, Reading.bind_assoc]
    · cases read first s with
      | read y =>
        simp only [Reading.bind_read, List.nil_append]
        cases readRow read (name :: names) (dropBlanks y.2) <;> rfl
      | refused => rfl
      | stuck => rfl
    · simp

theorem tracks_chain_choice {first : String} {names : List String}
    (hcall : ∀ x ∈ first :: names, (call {} x).Tracks a b fun s => (read x s).single) :
    ((Plan.chain true first names).run gap call {}).Tracks a b fun s =>
      (readFirst read (first :: names) s).single := by
  induction names generalizing first with
  | nil =>
    refine (hcall first List.mem_cons_self).congr fun s => ?_
    rw [readFirst, readFirst]
    cases read first s <;> rfl
  | cons name names ih =>
    have hrest := ih fun x hx => hcall x (List.mem_cons_of_mem _ hx)
    refine ((hcall first List.mem_cons_self).choice hrest).congr fun s => ?_
    show _ = ((read first s).orElse (readFirst read (name :: names) s)).single
    cases read first s <;> rfl

end Chains

/-! ## Blanks -/

theorem loop_char (p : Char → Bool) (s : List Char) :
    Taking.loop (Taking.char p) (s.length + 1) s = .read (s.dropWhile p) := by
  induction s with
  | nil => rfl
  | cons c s ih =>
    rw [List.length_cons, Taking.loop, Taking.char]
    by_cases hc : p c = true
    · simp only [hc, if_true, List.length_cons, Nat.lt_succ_self]
      rw [ih, List.dropWhile_cons_of_pos hc]
    · simp only [hc, Bool.false_eq_true, if_false]
      rw [List.dropWhile_cons_of_neg hc]

theorem lifts_blanksPlan (gap : Context → Run) (call : Context → String → Run) (ctx : Context) :
    (blanksPlan.run gap call ctx).Lifts (Taking.char Text.isBlank) := by
  have htakes : Taking.choice (Taking.text [' ']) (Taking.choice (Taking.text ['\t'])
      (Taking.choice (Taking.text ['\r']) (Taking.text ['\n']))) = Taking.char Text.isBlank := by
    funext s
    cases s with
    | nil => rfl
    | cons c s =>
      simp only [Taking.choice, Taking.text, Taking.char, List.isPrefixOf, Bool.and_true,
        List.length_singleton, List.drop_succ_cons, List.drop_zero, Text.isBlank]
      by_cases h₁ : c = ' '
      · simp [h₁]
      by_cases h₂ : c = '\t'
      · simp [h₂]
      by_cases h₃ : c = '\r'
      · simp [h₃]
      by_cases h₄ : c = '\n'
      · simp [h₄]
      simp [h₁, h₂, h₃, h₄, Ne.symm h₁, Ne.symm h₂, Ne.symm h₃, Ne.symm h₄]
  rw [← htakes]
  exact .choice (.text [' ']) (.choice (.text ['\t']) (.choice (.text ['\r']) (.text ['\n'])))

namespace Model.IsNamed

variable {m : Model} {startRule : String} (h : m.IsNamed startRule) (hv : m.IsValid)

include h hv

theorem lifts_blanks (length depth : Nat) :
    (runRule (m.routines startRule) length (depth + 1) {} "WHITESPACE").Lifts
      (Taking.char Text.isBlank) := by
  intro st
  have hbuiltin : builtinRun? length {} "WHITESPACE" = none := rfl
  rw [runRule, hbuiltin, h.routineNamed?_blanks hv]
  exact lifts_blanksPlan _ _ _ st

/-- Blanks are skipped between the elements of a row. -/
theorem lifts_gap (length depth : Nat) :
    (gapRun (m.routines startRule) (runRule (m.routines startRule) length (depth + 1)) {}).Lifts
      fun s => .read (dropBlanks s) := by
  intro st
  rw [gapRun, h.routineNamed?_blanks hv, h.routineNamed?_comment hv]
  show Run.star _ st = _
  rw [Run.star, (h.lifts_blanks hv length depth).loop, loop_char]
  rfl

theorem tracks_gap {a b : Prop} {depth : Nat} (ha : depth = 0 → a) (length : Nat) :
    (gapRun (m.routines startRule) (runRule (m.routines startRule) length depth) {}).Tracks a b
      fun s => .read ([], dropBlanks s) := by
  cases depth with
  | zero =>
    intro st _
    rw [gapRun, h.routineNamed?_blanks hv, h.routineNamed?_comment hv]
    exact .runStuck _ (ha rfl)
  | succ depth => exact .of_lifts (h.lifts_gap hv length depth)

end Model.IsNamed

/-! ## The ends of a text -/

theorem tracks_soi {a b : Prop} (routines : List Routine) (length depth : Nat) :
    (runRule routines length (depth + 1) {} "SOI").Tracks a b fun s =>
      if s.length = length then .read ([], s) else .refused := by
  rintro ⟨rest, stack, attempts⟩ (rfl : stack = [])
  show Agrees a b (if rest.length = length then _ else _)
    (if rest.length = length then .matched [] ⟨rest, [], attempts⟩ else .failed [] attempts)
  split
  · exact .read [] rest attempts
  · exact .refused attempts

theorem tracks_eoi {a b : Prop} (routines : List Routine) (length depth : Nat) :
    (runRule routines length (depth + 1) {} "EOI").Tracks a b fun s =>
      if s = [] then .read ([.node "EOI" 0 "" []], []) else .refused := by
  have hfinish : Run.finish.Tracks a b fun s => if s = [] then .read ([], []) else .refused := by
    rintro ⟨rest, stack, attempts⟩ (rfl : stack = [])
    cases rest with
    | nil => exact .read [] [] attempts
    | cons c rest => exact .refused attempts
  refine Run.Tracks.congr (hfinish.shown "EOI") fun s => ?_
  cases s <;> rfl

/-! ## Nodes -/

namespace Model.IsNamed

variable {m : Model} {startRule : String} (h : m.IsNamed startRule) (hv : m.IsValid)
  {name : String} {n : Node} (hn : m.node? name = some n)

include h hv hn

/-- A token reads what its plan takes. -/
theorem tracks_token {a b : Prop} {pattern : Pattern} (hb : n.body = .token pattern)
    (length depth : Nat) :
    (runRule (m.routines startRule) length (depth + 2) {} name).Tracks a b fun s =>
      (takesOf (m.routines startRule) name s).bind fun t =>
        .read ([.node name s.length (front s t) []], t) := by
  obtain ⟨p, hroutine, hplain, -⟩ := h.routineNamed?_token hv hn hb
  have hbody := Plan.runRule_eq_takes hplain (m.routines startRule) length depth
    { atomicity := .atomic } (by decide)
  have htakes : takesOf (m.routines startRule) name = p.takes := by rw [takesOf, hroutine]
  rw [h.runRule_token hn _ _ _ hroutine, htakes]
  refine ((Run.Tracks.of_lifts hbody).shown name).congr fun s => ?_
  cases p.takes s <;> rfl

end Model.IsNamed

/-! ## The engine -/

/-- The trees of a whole text. -/
def startTrees (startRule : String) (s : List Char) (tree : Tree) : List Tree :=
  [.node startRule s.length (String.ofList s) [tree, .node "EOI" 0 "" []]]

namespace Model.IsNamed

variable {m : Model} {startRule : String} (h : m.IsNamed startRule) (hv : m.IsValid)

include h hv

/-- **The engine reads a node as the model says**, whichever of the two is given more nested
calls. -/
theorem tracks_runRule {a b : Prop} (length : Nat) {calls depth : Nat} (hb : calls ≤ depth ∨ b)
    (ha : depth < calls ∨ a) {name : String} (hname : m.has name = true) :
    (runRule (m.routines startRule) length calls {} name).Tracks a b fun s =>
      (m.readNode (takesOf (m.routines startRule)) depth name s).single := by
  induction calls generalizing depth name with
  | zero =>
    intro st _
    exact .runStuck _ (ha.resolve_left (Nat.not_lt_zero _))
  | succ calls ih =>
    cases depth with
    | zero =>
      intro st _
      exact .readingStuck _ (hb.resolve_left (Nat.not_succ_le_zero _))
    | succ depth =>
      have hcall {x : String} (hx : m.has x = true) :=
        ih (hb.imp_left Nat.le_of_succ_le_succ) (ha.imp_left Nat.lt_of_succ_lt_succ) hx
      have hzero : calls = 0 → a := fun hc => ha.resolve_left (by omega)
      obtain ⟨n, hn⟩ := has_iff_node?.1 hname
      have hrefs := hv.references hn
      rw [Node.references] at hrefs
      cases hbody : n.body with
      | token pattern =>
        have hread (s : List Char) : (takesOf (m.routines startRule) name s).bind (fun t =>
            .read ([.node name s.length (front s t) []], t)) =
              (m.readNode (takesOf (m.routines startRule)) (depth + 1) name s).single := by
          rw [readNode_token hn _ _ _ hbody, Reading.single, Reading.bind_assoc]
          rfl
        refine Run.Tracks.congr ?_ hread
        cases calls with
        | succ calls => exact h.tracks_token hv hn hbody length calls
        | zero =>
          -- a single call may be too few for a class of characters, and then gives no answer
          intro st hst
          by_cases hstuck : runRule (m.routines startRule) length 1 {} name st = .stuck
          · rw [hstuck]
            exact .runStuck _ (hzero rfl)
          · rw [← runRule_le (m.routines startRule) length (Nat.le_succ 1) {} name st hstuck]
            exact h.tracks_token hv hn hbody length 0 st hst
      | deduction elements =>
        rw [hbody] at hrefs
        have hrow : ((Plan.sequenceOf (elements.map Element.target)).run
            (gapRun (m.routines startRule) (runRule (m.routines startRule) length calls))
            (runRule (m.routines startRule) length calls) {}).Tracks a b
              (readRow (m.readNode (takesOf (m.routines startRule)) depth)
                (elements.map Element.target)) := by
          cases elements with
          | nil => exact .congr (.of_lifts (.text [])) fun s => rfl
          | cons e es =>
            exact tracks_chain_seq (h.tracks_gap hv hzero length) fun x hx => hcall (hrefs x hx)
        rw [h.runRule_deduction hn _ _ _ hv hbody]
        refine (hrow.shown name).congr fun s => ?_
        rw [readNode_deduction hn _ _ _ hbody, Reading.single, Reading.bind_assoc]
        rfl
      | union members =>
        cases members with
        | nil => exact absurd rfl (hv.members hn hbody)
        | cons first members =>
          rw [hbody] at hrefs
          rw [h.runRule_union hn _ _ _ hv hbody]
          refine (tracks_chain_choice fun x hx => hcall (hrefs x hx)).congr fun s => ?_
          rw [readNode_union hn _ _ _ hbody]

/-! ## Whole texts -/

theorem runRule_start (length depth : Nat) :
    runRule (m.routines startRule) length (depth + 1) {} startRule =
      Run.shown {} startRule ((Plan.sequenceOf ["SOI", m.start, "EOI"]).run
        (gapRun (m.routines startRule) (runRule (m.routines startRule) length depth))
        (runRule (m.routines startRule) length depth) {}) := by
  have hblanks : startRule ≠ "WHITESPACE" := fun hname => h.start (hname ▸ by decide)
  have hcomment : startRule ≠ "COMMENT" := fun hname => h.start (hname ▸ by decide)
  funext st
  rw [runRule, builtinRun?_eq_none h.start, h.routineNamed?_start hv]
  simp only [Routine.run, Routine.isGap, hblanks, hcomment, decide_false, Bool.or_self,
    Bool.false_eq_true, if_false]

/-- **The engine reads a whole text as the model says.** -/
theorem agrees_parseWith {a b : Prop} (s : List Char) {depth : Nat}
    (hb : enoughDepth (m.routines startRule) s ≤ depth + 1 ∨ b)
    (ha : depth + 1 < enoughDepth (m.routines startRule) s ∨ a) :
    Agrees a b ((m.readText (takesOf (m.routines startRule)) depth s).bind fun tree =>
      .read (startTrees startRule s tree, [])) (parseWith (m.routines startRule) startRule s) := by
  obtain ⟨calls, hcalls⟩ : ∃ calls, enoughDepth (m.routines startRule) s = calls + 2 := by
    refine Nat.exists_eq_add_of_le' ?_
    rw [enoughDepth]
    have : 2 * 1 ≤ ((m.routines startRule).length + 2) * (s.length + 2) :=
      Nat.mul_le_mul (by omega) (by omega)
    exact Nat.le_trans this (Nat.le_mul_of_pos_right _ (Nat.succ_pos _))
  rw [hcalls] at ha hb
  have hgap : (gapRun (m.routines startRule)
      (runRule (m.routines startRule) s.length (calls + 1)) {}).Tracks a b _ :=
    h.tracks_gap hv (fun hc => by omega) s.length
  have hnode : (runRule (m.routines startRule) s.length (calls + 1) {} m.start).Tracks a b _ :=
    h.tracks_runRule hv s.length (hb.imp_left Nat.le_of_succ_le_succ)
      (ha.imp_left Nat.lt_of_succ_lt_succ) hv.start
  have hrow := ((tracks_soi (m.routines startRule) s.length calls).seq (hgap.seq (hnode.seq
    (hgap.seq (tracks_eoi (m.routines startRule) s.length calls))))).shown startRule
  have hread := hrow ⟨s, [], .none s.length⟩ rfl
  rw [parseWith, hcalls, h.runRule_start hv, readText]
  refine cast (congrArg (Agrees a b · _) ?_) hread
  simp only [if_true, Reading.bind_read, Reading.single]
  cases m.readNode (takesOf (m.routines startRule)) depth m.start (dropBlanks s) with
  | refused => rfl
  | stuck => rfl
  | read y =>
    simp only [Reading.bind_read]
    by_cases hend : dropBlanks y.2 = []
    · simp [hend, startTrees, front]
    · simp [hend]

end Model.IsNamed

end GrammarKit
