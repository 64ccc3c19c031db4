import GrammarKit.Proofs.Code.TypeName
import GrammarKit.Stringifier.Generator
import Mathlib.Data.List.Basic

/-!
# What the generated functions do

A function is settled before it is printed: its name, its type and what it writes. Its text is spelled
out here token by token, so that what is said about a function is said about the text.

* `Task`: what a function writes.
* `Writer`, `Writer.tokens`: a function before it is printed, and its text.
* **`nodeFunction_eq`**: the function for a node is its writer, printed.
* **`dispatcherItem_eq`**: so is the function on all values.
-/

namespace GrammarKit

open Code

/-- The field that a part of a deduction reads. -/
def Part.field? : Part → Option String
  | field _ name => some name
  | text _ => none

/-- **What a function writes.** -/
inductive Task where
  /-- A value that writes itself. -/
  | display
  /-- The text of a token. -/
  | value
  /-- Parts with a separator between them. -/
  | join (parts : List Part)
  /-- What the function of the variant at hand writes. -/
  | dispatch (arms : List Arm)

/-- **A function that writes nodes**, before it is printed. -/
structure Writer where
  function : String
  type : String
  task : Task

/-- The text of a part. -/
def Part.spelled : Part → List Token
  | field function name => [.unit function, .group .paren
      [.unit "&", .unit "node", .unit ".", .unit name, .unit ",", .unit "options"]]
  | text s => [.unit "String", .unit "::", .unit "from", .group .paren [.unit (quoted s)]]

/-- The text of an arm on values of a type. -/
def Arm.spelled (type : List Token) (a : Arm) : List Token :=
  type ++ [.unit "::", .unit a.variant, .group .paren [.unit "ref", .unit "inner"], .unit "=>",
    .unit a.function, .group .paren [.unit "inner", .unit ",", .unit "options"], .unit ","]

/-- The names of the parameters, which start with an underscore if the body does not use them. -/
def Task.parameters : Task → String × String
  | display | value => ("node", "_options")
  | join parts => (if parts.any (·.field?.isSome) then "node" else "_node", "options")
  | dispatch _ => ("node", "options")

/-- The body of a function on values of a type. -/
def Task.spelled (type : List Token) : Task → List Token
  | display => [.unit "node", .unit ".", .unit "to_string", .group .paren []]
  | value => [.unit "node", .unit ".", .unit "value", .unit ".", .unit "clone", .group .paren []]
  | join parts =>
    [.unit "let", .unit "parts", .unit ":", .unit "Vec", .unit "<", .unit "String", .unit ">",
      .unit "=", .unit "vec", .unit "!",
      .group .bracket ([.unit ","].intercalate (parts.map Part.spelled)), .unit ";",
      .unit "parts", .unit ".", .unit "join",
      .group .paren [.unit "separator", .group .paren [.unit "options"]]]
  | dispatch arms =>
    [.unit "match", .unit "*", .unit "node", .group .brace (arms.flatMap (Arm.spelled type))]

/-- **The text of a function.** -/
def Writer.tokens (w : Writer) : List Token :=
  let type := typeTokens w.type
  let (node, options) := w.task.parameters
  [.unit "pub", .unit "fn", .unit w.function,
    .group .paren ([.unit node, .unit ":", .unit "&"] ++ type ++
      [.unit ",", .unit options, .unit ":", .unit "&", .unit "StringifyOptions"]),
    .unit "->", .unit "String", .group .brace (w.task.spelled type)]

/-- What the function for a node writes. -/
def taskOf (m : Model) (names : Names) (e : NamedNode) : Task :=
  if names.isMapped e.1 then .display
  else match e.2.body with
    | .token _ => .value
    | .deduction elements => .join (elements.filterMap (partOf? m names))
    | .union members => .dispatch (members.map (armOf names))

/-- The writer for a node. -/
def writerOf (m : Model) (names : Names) (e : NamedNode) : Writer :=
  ⟨names.functionOf e.1, names.typeOf e.1, taskOf m names e⟩

variable {m : Model} {names : Names}

/-- An element reads a field exactly if it has a property. -/
theorem field?_partOf? (m : Model) (names : Names) (e : Element) :
    (partOf? m names e).bind Part.field? = e.property.map names.fieldOf := by
  unfold partOf?
  cases e.property with
  | some property => rfl
  | none =>
    cases m.literalOf? e.target with
    | none => rfl
    | some text => by_cases htext : text = "" <;> simp [htext, Part.field?]

/-- The fields that a deduction reads are those of its properties, in order. -/
theorem filterMap_field? (elements : List Element) :
    (elements.filterMap (partOf? m names)).filterMap Part.field? =
      (elements.filterMap Element.property).map names.fieldOf := by
  rw [List.filterMap_filterMap, List.map_filterMap]
  exact List.filterMap_congr fun e _ => field?_partOf? m names e

theorem any_field? (elements : List Element) :
    (elements.filterMap (partOf? m names)).any (·.field?.isSome) =
      elements.any (·.property.isSome) := by
  rw [List.any_filterMap]
  refine congrArg (List.any elements) (funext fun e => ?_)
  have hfield := congrArg Option.isSome (field?_partOf? m names e)
  rw [Option.isSome_map] at hfield
  rw [← hfield]
  cases partOf? m names e <;> rfl

/-! ## Printing -/

/-- Lists of tokens with commas between them. -/
theorem commaSeparated_eq (items : List (List Token)) :
    commaSeparated items = [.unit ","].intercalate items := by
  fun_induction commaSeparated items with
  | case1 => rfl
  | case2 ts => simp [List.intercalate]
  | case3 ts us rest ih => simp [ih, List.intercalate, List.intersperse]

theorem Part.spelled_eq (p : Part) : p.spelled = p.tokens := by
  cases p <;> rfl

theorem Arm.spelled_eq (type : List Token) (a : Arm) :
    a.spelled type = a.tokens type ++ [.unit ","] := by
  simp only [Arm.tokens, List.append_assoc]
  rfl

theorem join_spelled (type : List Token) (parts : List Part) :
    (Task.join parts).spelled type = joinParts parts := by
  rw [joinParts, commaSeparated_eq, ← List.map_congr_left fun p _ => p.spelled_eq]
  rfl

theorem dispatch_spelled (type : List Token) (arms : List Arm) :
    (Task.dispatch arms).spelled type =
      words "match * node" ++ brace (commaEnded (arms.map (Arm.tokens type))) := by
  rw [commaEnded, List.flatMap_map, ← List.flatMap_congr fun a _ => a.spelled_eq type]
  rfl

/-- The text of a function, put together from its head and its body. -/
theorem Writer.tokens_eq (w : Writer) :
    w.tokens = writeFunction w.function w.task.parameters.1 (typeTokens w.type)
      w.task.parameters.2 (w.task.spelled (typeTokens w.type)) := by
  simp only [writeFunction, List.append_assoc]
  rfl

/-- **The function for a node is its writer, printed.** -/
theorem nodeFunction_eq (e : NamedNode) :
    nodeFunction m names e = (writerOf m names e).tokens := by
  rw [Writer.tokens_eq]
  unfold nodeFunction writerOf taskOf
  by_cases hmapped : names.isMapped e.1 = true
  · simp only [hmapped, if_true]
    rfl
  · simp only [hmapped]
    cases e.2.body with
    | token pattern => rfl
    | deduction elements =>
      simp only [Task.parameters, any_field?, Bool.false_eq_true, if_false, join_spelled]
    | union members =>
      simp only [Bool.false_eq_true, if_false, dispatch_spelled, List.map_map]
      rfl

/-- **The function on all values is the writer of `AnyNode`, printed.** -/
theorem dispatcherItem_eq (arms : List Arm) :
    dispatcherItem arms = (Writer.mk "stringify_node" "AnyNode" (.dispatch arms)).tokens := by
  have htype : typeTokens "AnyNode" = words "AnyNode" :=
    typeTokens_of_isPlainWord (by decide) (by decide)
  rw [Writer.tokens_eq]
  simp only [dispatch_spelled, htype]
  rfl

namespace StringifierPlan

variable (p : StringifierPlan)

theorem writer_mem_items {e : NamedNode} (he : e ∈ p.model.nodes.entries) :
    (writerOf p.model p.names e).tokens ∈ p.items :=
  List.mem_cons_of_mem _ (List.mem_append_right _
    (nodeFunction_eq e ▸ List.mem_map_of_mem (f := nodeFunction p.model p.names) he))

theorem dispatcher_mem_items :
    (Writer.mk "stringify_node" "AnyNode" (.dispatch (valueArms p.model p.names))).tokens ∈
      p.items := by
  rw [← dispatcherItem_eq]
  have hmem : dispatcherItem (valueArms p.model p.names) ∈ helperItems p.model p.names := by
    simp [helperItems]
  exact List.mem_cons_of_mem _ (List.mem_append_left _ (List.mem_append_right _ hmem))

end StringifierPlan

end GrammarKit
