import GrammarKit.Proofs.Parser.Reading
import GrammarKit.Proofs.Parser.Termination

/-!
# How many nested calls suffice

A node that is read on a text reads others on the same text, along first symbols, or on less text.
Without left recursion the first kind of step can be taken at most as often as there are nodes, so
that a number of nested calls for each character suffices. The parser of a model allows for that
many.

* `Reads`: what a reading takes, and when it takes nothing.
* `Model.reads_readNode`: nodes take nothing only if they match the empty text.
* **`Model.readNode_ne_stuck`**, **`Model.readText_ne_stuck`**: nested nodes that suffice.
* **`Model.IsWritten.parseWith_ne_stuck`**: a parser has an answer on every text.
-/

namespace GrammarKit

open Peg

/-! ## What is read -/

/-- **No more than a text is read of it**, and the whole text is left only if `P` holds. -/
def Reads {α : Type} (f : List Char → Reading (α × List Char)) (P : Prop) : Prop :=
  ∀ s x t, f s = .read (x, t) → t.length ≤ s.length ∧ (t.length = s.length → P)

section Rows

variable {read : String → List Char → Reading (Tree × List Char)} {xs : List String}
  {S : String → Prop}

theorem length_dropBlanks_le (s : List Char) : (dropBlanks s).length ≤ s.length :=
  (List.dropWhile_sublist _).length_le

theorem readRow_cons_cons (x y : String) (ys : List String) (s : List Char) :
    readRow read (x :: y :: ys) s = (read x s).bind fun z =>
      (readRow read (y :: ys) (dropBlanks z.2)).bind fun zs => .read (z.1 :: zs.1, zs.2) := rfl

theorem readRow_singleton (x : String) (s : List Char) :
    readRow read [x] s = (read x s).bind fun y => .read ([y.1], y.2) := rfl

/-- A row takes nothing only if none of its names does. -/
theorem reads_readRow (h : ∀ x ∈ xs, Reads (read x) (S x)) :
    Reads (readRow read xs) (∀ x ∈ xs, S x) := by
  induction xs with
  | nil =>
    intro s trees t hread
    cases hread
    exact ⟨Nat.le_refl _, fun _ => List.forall_mem_nil _⟩
  | cons x xs ih =>
    obtain ⟨hx, hxs⟩ := List.forall_mem_cons.1 h
    intro s trees t hread
    cases xs with
    | nil =>
      rw [readRow_singleton] at hread
      obtain ⟨y, hfirst, hread⟩ := Reading.bind_eq_read hread
      cases hread
      obtain ⟨hle, hstill⟩ := hx s y.1 y.2 hfirst
      exact ⟨hle, fun hlength => List.forall_mem_singleton.2 (hstill hlength)⟩
    | cons y ys =>
      rw [readRow_cons_cons] at hread
      obtain ⟨z, hfirst, hread⟩ := Reading.bind_eq_read hread
      obtain ⟨zs, hrest, hread⟩ := Reading.bind_eq_read hread
      cases hread
      obtain ⟨hle, hstill⟩ := hx s z.1 z.2 hfirst
      obtain ⟨hle', hstill'⟩ := ih hxs _ zs.1 zs.2 hrest
      have hblanks := length_dropBlanks_le z.2
      refine ⟨by omega, fun hlength => List.forall_mem_cons.2 ⟨hstill ?_, hstill' ?_⟩⟩
      all_goals omega

/-- A choice takes nothing only if one of its names does. -/
theorem reads_readFirst (h : ∀ x ∈ xs, Reads (read x) (S x)) :
    Reads (readFirst read xs) (∃ x ∈ xs, S x) := by
  induction xs with
  | nil =>
    intro s tree t hread
    cases hread
  | cons x xs ih =>
    obtain ⟨hx, hxs⟩ := List.forall_mem_cons.1 h
    intro s tree t hread
    rcases Reading.orElse_eq_read hread with hread | hread
    · obtain ⟨hle, hstill⟩ := hx s tree t hread
      exact ⟨hle, fun hlength => ⟨x, List.mem_cons_self, hstill hlength⟩⟩
    · obtain ⟨hle, hstill⟩ := ih hxs s tree t hread
      refine ⟨hle, fun hlength => ?_⟩
      obtain ⟨y, hy, hSy⟩ := hstill hlength
      exact ⟨y, List.mem_cons_of_mem _ hy, hSy⟩

/-! ## Answers -/

theorem Peg.Reading.read_ne_stuck {α : Type} (x : α) : Reading.read x ≠ .stuck := by
  simp

theorem Peg.Reading.bind_ne_stuck {α β : Type} {r : Reading α} {f : α → Reading β}
    (hr : r ≠ .stuck) (hf : ∀ x, r = .read x → f x ≠ .stuck) : r.bind f ≠ .stuck := by
  cases r with
  | read x => exact hf x rfl
  | refused => exact nofun
  | stuck => exact absurd rfl hr

theorem Peg.Reading.orElse_ne_stuck {α : Type} {r t : Reading α} (hr : r ≠ .stuck)
    (ht : t ≠ .stuck) : r.orElse t ≠ .stuck := by
  cases r with
  | read x => exact nofun
  | refused => exact ht
  | stuck => exact absurd rfl hr

/-- **A row has an answer** if each name has one on less text, and also on as much text where the
names in front of it may take nothing. -/
theorem readRow_ne_stuck (hreads : ∀ x ∈ xs, Reads (read x) (S x)) {s : List Char}
    (h : ∀ front x back, xs = front ++ x :: back → ∀ t : List Char, t.length ≤ s.length →
      (t.length = s.length → ∀ y ∈ front, S y) → read x t ≠ .stuck) :
    readRow read xs s ≠ .stuck := by
  induction xs generalizing s with
  | nil => exact nofun
  | cons x xs ih =>
    obtain ⟨hx, hxs⟩ := List.forall_mem_cons.1 hreads
    have hfirst := h [] x xs rfl s (Nat.le_refl _) fun _ => List.forall_mem_nil _
    cases xs with
    | nil => exact Reading.bind_ne_stuck hfirst fun _ _ => Reading.read_ne_stuck _
    | cons y ys =>
      rw [readRow_cons_cons]
      refine Reading.bind_ne_stuck hfirst fun z hread => ?_
      obtain ⟨hle, hstill⟩ := hx s z.1 z.2 hread
      have hblanks := length_dropBlanks_le z.2
      refine Reading.bind_ne_stuck (ih hxs fun front w back hrow t ht hfront => ?_)
        fun _ _ => Reading.read_ne_stuck _
      refine h (x :: front) w back (by rw [hrow, List.cons_append]) t (by omega) fun hlength => ?_
      -- as much text is left as there was at first, so nothing was taken in between
      exact List.forall_mem_cons.2 ⟨hstill (by omega), hfront (by omega)⟩

theorem readFirst_ne_stuck {s : List Char} (h : ∀ x ∈ xs, read x s ≠ .stuck) :
    readFirst read xs s ≠ .stuck := by
  induction xs with
  | nil => exact nofun
  | cons x xs ih =>
    obtain ⟨hx, hxs⟩ := List.forall_mem_cons.1 h
    exact Reading.orElse_ne_stuck hx (ih hxs)

end Rows

/-! ## Nodes -/

namespace Model

/-- **Tokens that have an answer** on every text, and take nothing only if they match the empty
text. -/
def TokensAnswer (m : Model) (takes : String → Taking) : Prop :=
  ∀ {name n pattern}, m.node? name = some n → n.body = .token pattern →
    ∀ s, takes name s ≠ .stuck ∧ ∀ t, takes name s = .read t →
      t.length ≤ s.length ∧ (t.length = s.length → name ∈ m.nullable)

variable {m : Model} {takes : String → Taking} (htokens : m.TokensAnswer takes) (hv : m.IsValid)

include htokens hv

/-- **Nodes take nothing only if they match the empty text.** -/
theorem reads_readNode (depth : Nat) :
    ∀ name ∈ m.names, Reads (m.readNode takes depth name) (name ∈ m.nullable) := by
  induction depth with
  | zero => exact fun name _ s x t hread => nomatch hread
  | succ depth ih =>
    intro name hname s tree t hread
    obtain ⟨n, hn⟩ := has_iff_node?.1 (has_iff.2 hname)
    have href : ∀ x ∈ n.references, x ∈ m.names := fun x hx => has_iff.1 (hv.references hn x hx)
    rw [Node.references] at href
    cases hb : n.body with
    | token pattern =>
      rw [readNode_token hn _ _ _ hb] at hread
      obtain ⟨u, hu, hread⟩ := Reading.bind_eq_read hread
      cases hread
      exact (htokens hn hb s).2 t hu
    | deduction elements =>
      rw [readNode_deduction hn _ _ _ hb] at hread
      obtain ⟨z, hrow, hread⟩ := Reading.bind_eq_read hread
      cases hread
      rw [hb] at href
      obtain ⟨hle, hstill⟩ := reads_readRow (fun x hx => ih x (href x hx)) s z.1 z.2 hrow
      refine ⟨hle, fun hlength => mem_nullable hn ?_⟩
      rw [hb]
      simpa [Body.nullableIn] using hstill hlength
    | union members =>
      rw [readNode_union hn _ _ _ hb] at hread
      rw [hb] at href
      obtain ⟨hle, hstill⟩ := reads_readFirst (fun x hx => ih x (href x hx)) s tree t hread
      refine ⟨hle, fun hlength => mem_nullable hn ?_⟩
      rw [hb]
      simpa [Body.nullableIn] using hstill hlength

variable (hrec : m.leftRecursive = [])

include hrec

/-- **Nested nodes that suffice**: as many as there are nodes for each character and for the end of
the text, less those that led to the node on the same text. -/
theorem readNode_ne_stuck (k : Nat) : ∀ name ∈ m.names, ∀ depth (trail : List String),
    trail.Nodup → trail ⊆ m.names →
    (∀ x ∈ trail, Relation.TransGen (fun a b => m.CanStart b a) x name) →
    ∀ s : List Char, s.length = k → m.names.length * (k + 1) ≤ depth + trail.length →
      m.readNode takes depth name s ≠ .stuck := by
  -- first on less text, then on as much text along first symbols
  induction k using Nat.strong_induction_on with
  | _ k ihText =>
    refine canStart_induct hrec fun name hname ihFirst depth trail hnodup htrail hpath s hs hdepth => ?_
    have hnotMem : name ∉ trail := fun hmem =>
      leftRecursive_eq_nil_iff.1 hrec name (hpath name hmem)
    have hnodup' : (name :: trail).Nodup := List.nodup_cons.2 ⟨hnotMem, hnodup⟩
    have htrail' : name :: trail ⊆ m.names := List.cons_subset.2 ⟨hname, htrail⟩
    have hle := (List.subperm_of_subset hnodup' htrail').length_le
    rw [List.length_cons] at hle
    rw [Nat.mul_succ] at hdepth
    obtain ⟨depth, rfl⟩ : ∃ d, depth = d + 1 := ⟨depth - 1, by omega⟩
    have hless {x : String} (hx : x ∈ m.names) {t : List Char} (ht : t.length < k) :
        m.readNode takes depth x t ≠ .stuck := by
      have hmul : m.names.length * (t.length + 1) ≤ m.names.length * k := Nat.mul_le_mul_left _ ht
      exact ihText _ ht x hx depth [] List.nodup_nil (List.nil_subset _) (List.forall_mem_nil _) t rfl
        (by rw [List.length_nil]; omega)
    have hstart {x : String} (hx : m.CanStart x name) {t : List Char} (ht : t.length = k) :
        m.readNode takes depth x t ≠ .stuck := by
      refine ihFirst x hx.choose_spec.2.2 hx depth (name :: trail) hnodup' htrail' ?_ t ht ?_
      · exact List.forall_mem_cons.2 ⟨.single hx, fun y hy => (hpath y hy).tail hx⟩
      · rw [List.length_cons, Nat.mul_succ]
        omega
    obtain ⟨n, hn⟩ := has_iff_node?.1 (has_iff.2 hname)
    have href : ∀ x ∈ n.references, x ∈ m.names := fun x hx => has_iff.1 (hv.references hn x hx)
    rw [Node.references] at href
    cases hb : n.body with
    | token pattern =>
      rw [readNode_token hn _ _ _ hb]
      exact Reading.bind_ne_stuck (htokens hn hb s).1 fun _ _ => Reading.read_ne_stuck _
    | deduction elements =>
      rw [readNode_deduction hn _ _ _ hb]
      rw [hb] at href
      refine Reading.bind_ne_stuck (readRow_ne_stuck
        (fun x hx => reads_readNode htokens hv depth x (href x hx))
        fun front x back hrow t ht hfront => ?_) fun _ _ => Reading.read_ne_stuck _
      have hx : x ∈ m.names := href x (hrow ▸ List.mem_append_right _ List.mem_cons_self)
      rcases Nat.lt_or_eq_of_le (hs ▸ ht) with hlt | heq
      · exact hless hx hlt
      · exact hstart (canStart_of_deduction hn hb hrow (hfront (heq.trans hs.symm)) hx) heq
    | union members =>
      rw [readNode_union hn _ _ _ hb]
      rw [hb] at href
      exact readFirst_ne_stuck fun x hx => hstart (canStart_of_union hn hb hx (href x hx)) hs

/-- **A whole text has an answer** through that many nested nodes. -/
theorem readText_ne_stuck {s : List Char} {depth : Nat}
    (hdepth : m.names.length * (s.length + 1) ≤ depth) : m.readText takes depth s ≠ .stuck := by
  have hblanks : m.names.length * ((dropBlanks s).length + 1) ≤ m.names.length * (s.length + 1) :=
    Nat.mul_le_mul_left _ (Nat.succ_le_succ (length_dropBlanks_le s))
  refine Reading.bind_ne_stuck (readNode_ne_stuck htokens hv hrec _ m.start (has_iff.1 hv.start) depth
    [] List.nodup_nil (List.nil_subset _) (List.forall_mem_nil _) _ rfl ?_) fun y _ => ?_
  · rw [List.length_nil]
    omega
  · split <;> exact nofun

end Model

/-! ## Parsers -/

namespace Model

variable {m : Model} {startRule : String}

/-- The tokens of a model whose rules have passed the checks have an answer. -/
theorem IsWritten.tokensAnswer (h : m.IsWritten startRule) (hv : m.IsValid) :
    m.TokensAnswer (takesOf (m.routines startRule)) := by
  intro name n pattern hn hb s
  obtain ⟨p, hp, hplain, hsteady, hon⟩ := h.exists_token hv hn hb
  have htakes : takesOf (m.routines startRule) name = p.takes := by rw [takesOf, hp]
  rw [htakes]
  refine ⟨(hsteady h.steady).takes_ne_stuck hplain s, fun t hread => ?_⟩
  refine ⟨(p.leavesEnd_takes s t hread).length_le, fun hlength => mem_nullable hn ?_⟩
  by_contra hnull
  rw [hb] at hnull
  have := hplain.getsOn_takes (hon.2 (by simpa [Body.nullableIn] using hnull)) s t hread
  omega

theorem HasRules.length_routines (h : m.HasRules startRule) :
    (m.routines startRule).length = m.names.length + 2 := by
  have hnames := congrArg List.length h.map_name_rules
  rw [List.length_map] at hnames
  simp [routines, planGrammar, pegRules, hnames]

/-- **A parser has an answer on every text**, where no node is left-recursive. -/
theorem IsWritten.parseWith_ne_stuck (h : m.IsWritten startRule) (hnamed : m.IsNamed startRule)
    (hv : m.IsValid) (hrec : m.leftRecursive = []) (s : List Char) :
    parseWith (m.routines startRule) startRule s ≠ .stuck := by
  obtain ⟨depth, hdepth, hcalls⟩ : ∃ depth, m.names.length * (s.length + 1) ≤ depth ∧
      depth + 1 < enoughDepth (m.routines startRule) s := by
    refine ⟨m.names.length * (s.length + 1), Nat.le_refl _, ?_⟩
    rw [enoughDepth, h.length_routines]
    calc m.names.length * (s.length + 1) + 1
        < (m.names.length + 2 + 2) * (s.length + 2) := by
          have hmul : m.names.length * (s.length + 1) ≤ m.names.length * (s.length + 2) :=
            Nat.mul_le_mul_left _ (Nat.le_succ _)
          rw [Nat.add_assoc, Nat.add_mul]
          omega
      _ ≤ _ := Nat.le_mul_of_pos_right _ (Nat.succ_pos _)
  have hread := readText_ne_stuck (h.tokensAnswer hv) hv hrec hdepth
  have hagrees := hnamed.agrees_parseWith hv (a := False) (b := True) s (.inr trivial) (.inl hcalls)
  intro hstuck
  rw [hstuck] at hagrees
  cases hread' : m.readText (takesOf (m.routines startRule)) depth s with
  | read tree => rw [hread'] at hagrees; cases hagrees; assumption
  | refused => rw [hread'] at hagrees; cases hagrees; assumption
  | stuck => exact hread hread'

end Model

end GrammarKit
