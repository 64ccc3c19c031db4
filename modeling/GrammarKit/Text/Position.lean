/-!
# Places in a text

A text is a list of characters; files and reports address it by bytes of its UTF-8 form and by
line and column.

* `byteLength`: the bytes a text takes.
* `Position`, `Position.after`: the place right behind a text, lines and columns from one.
* `Position.before`: the place where what is left of a text starts.
-/

namespace GrammarKit.Text

/-- The bytes that the UTF-8 form of a text takes. -/
def byteLength : List Char → Nat
  | [] => 0
  | c :: s => c.utf8Size + byteLength s

@[simp] theorem byteLength_nil : byteLength [] = 0 := rfl

@[simp] theorem byteLength_cons (c : Char) (s : List Char) :
    byteLength (c :: s) = c.utf8Size + byteLength s := rfl

@[simp] theorem byteLength_append (s t : List Char) :
    byteLength (s ++ t) = byteLength s + byteLength t := by
  induction s with
  | nil => simp
  | cons c s ih => simp [ih, Nat.add_assoc]

/-- Pieces with a character each have as many characters as there are pieces, or more. -/
theorem length_le_flatMap {α : Type} {write : α → List Char} {l : List α}
    (h : ∀ a ∈ l, 0 < (write a).length) : l.length ≤ (l.flatMap write).length := by
  induction l with
  | nil => exact Nat.le_refl 0
  | cons a l ih =>
    have ha := h a List.mem_cons_self
    have hl := ih fun b hb => h b (List.mem_cons_of_mem _ hb)
    rw [List.flatMap_cons, List.length_append, List.length_cons]
    omega

/-- A place in a text: bytes from zero, lines and columns from one, columns in characters. -/
structure Position where
  offset : Nat
  line : Nat
  column : Nat
deriving Repr, DecidableEq, Inhabited

/-- The characters of a text since its last line feed. -/
def lastLine (s : List Char) : List Char := (s.reverse.takeWhile (· != '\n')).reverse

/-- The place right behind `s`. -/
def Position.after (s : List Char) : Position where
  offset := byteLength s
  line := s.count '\n' + 1
  column := (lastLine s).length + 1

/-- The place in `source` at which its last `rest.length` characters start. -/
def Position.before (source rest : List Char) : Position :=
  .after (source.take (source.length - rest.length))

end GrammarKit.Text
