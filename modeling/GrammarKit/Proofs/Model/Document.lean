import GrammarKit.Model.Document
import GrammarKit.Proofs.Json.Writing

/-!
# Documents give back their models

A model is written as a document with a kind for each pattern, an object for each element and a type
for each node, so that the reader, which accepts more than is written, takes each part the way it was
meant, whatever texts the model holds.

* `ofDocument?_toDocument`: patterns, elements and nodes.
* **`Model.ofDocument?_parse?_render`**: a model comes back from the text of its document.
-/

namespace GrammarKit

open Json

/-! ## Parts of a model -/

theorem mapM_some {α β : Type} {f : α → Option β} {g : β → α} (h : ∀ b, f (g b) = some b)
    (bs : List β) : (bs.map g).mapM f = some bs := by
  induction bs with
  | nil => rfl
  | cons b bs ih => simp [h, ih]

theorem Pattern.ofDocument?_toDocument (p : Pattern) : ofDocument? p.toDocument = some p := by
  cases p <;> rfl

theorem Element.ofDocument?_toDocument (e : Element) : ofDocument? e.toDocument = some e := by
  obtain ⟨target, property⟩ := e
  cases property <;> rfl

section Record

variable {key : String} (htype : key ≠ "type") (hdescription : key ≠ "description")
  (description : Option String) (j : Json)

include htype hdescription

/-- The fields of a node's document: its type is none of them. -/
theorem record?_node (type : Json) :
    (Json.object (("type", type) :: optionalMember "description" description ++
      [(key, j)])).record? ["description", key] =
        some (optionalMember "description" description ++ [(key, j)]) := by
  cases description <;> simp [record?, knownMembers?, optionalMember, Entries.find?, htype.symm,
    hdescription, hdescription.symm]

omit hdescription in
/-- A node's document has its type once. -/
theorem soleText?_type (type : String) :
    soleText? (("type", .string type) :: optionalMember "description" description ++ [(key, j)])
      "type" = some type := by
  cases description <;>
    simp [soleText?, knownMembers?, optionalMember, Entries.find?, htype, field?, text?]

omit htype in
theorem fieldOr_description :
    fieldOr (optionalMember "description" description ++ [(key, j)]) "description" none
      optionalText? = some description := by
  cases description <;> simp [fieldOr, optionalMember, Entries.find?, optionalText?, hdescription]

omit htype in
theorem find?_node :
    Entries.find? key (optionalMember "description" description ++ [(key, j)]) = some j := by
  cases description <;> simp [optionalMember, Entries.find?, hdescription.symm]

end Record

/-- **A node comes back from its document**: its type tells which of the other members there are. -/
theorem Node.ofDocument?_toDocument (n : Node) : ofDocument? n.toDocument = some n := by
  obtain ⟨description, body⟩ := n
  have htype {key : String} (hkey : key ≠ "type") (type : String) (j : Json) :
      ofDocument? (.object (("type", .string type) :: optionalMember "description" description ++
        [(key, j)])) = ofRecord? type (.object (("type", .string type) ::
          optionalMember "description" description ++ [(key, j)])) := by
    show (soleText? _ "type").bind _ = _
    rw [soleText?_type hkey]
    rfl
  rw [toDocument]
  cases body with
  | token pattern =>
    have hpattern := pattern.ofDocument?_toDocument
    simp only [kind, NodeKind.word, Body.toMembers]
    rw [htype (by decide), ofRecord?, if_pos rfl, record?_node (by decide) (by decide),
      Option.bind_eq_bind, Option.bind_some, fieldOr_description (by decide), Option.bind_eq_bind,
      Option.bind_some, field?, find?_node (by decide), Option.bind_some, hpattern]
    rfl
  | deduction elements =>
    have helements :
        list? Element.ofDocument? (.array (elements.map Element.toDocument)) = some elements :=
      mapM_some Element.ofDocument?_toDocument elements
    simp only [kind, NodeKind.word, Body.toMembers]
    rw [htype (by decide), ofRecord?, if_neg (by decide), if_pos rfl,
      record?_node (by decide) (by decide), Option.bind_eq_bind, Option.bind_some,
      fieldOr_description (by decide), Option.bind_eq_bind, Option.bind_some, fieldOr,
      find?_node (by decide)]
    simp only
    rw [helements]
    rfl
  | union members =>
    have hmembers : texts? (.ofTexts members) = some members :=
      mapM_some (f := text?) (g := Json.string) (fun _ => rfl) members
    simp only [kind, NodeKind.word, Body.toMembers]
    rw [htype (by decide), ofRecord?, if_neg (by decide), if_neg (by decide), if_pos rfl,
      record?_node (by decide) (by decide), Option.bind_eq_bind, Option.bind_some,
      fieldOr_description (by decide), Option.bind_eq_bind, Option.bind_some, fieldOr,
      find?_node (by decide)]
    simp only
    rw [hmembers]
    rfl

/-- A model comes back from its document. -/
theorem Model.ofDocument?_toDocument (m : Model) : ofDocument? m.toDocument = some m := by
  obtain ⟨name, version, start, nodes⟩ := m
  have hentries : (nodes.entries.map fun e => (e.1, e.2.toDocument)).mapM
      (fun e : String × Json => (Node.ofDocument? e.2).map fun a => (e.1, a)) =
        some nodes.entries := by
    refine mapM_some (g := fun e : String × Node => (e.1, e.2.toDocument)) (fun e => ?_) _
    rw [e.2.ofDocument?_toDocument]
    rfl
  have hnodes : table? Node.ofDocument?
      (.object (nodes.entries.map fun e => (e.1, e.2.toDocument))) = some nodes := by
    rw [table?, hentries, Option.map_some, Table.ofList_entries]
  simp [toDocument, ofDocument?, record?, knownMembers?, fieldOr, field?, Entries.find?, text?,
    hnodes]

/-! ## Texts of documents -/

theorem isTextual_optionalMember (key : String) (text : Option String)
    {members : List (String × Json)} (h : MembersTextual members) :
    MembersTextual (optionalMember key text ++ members) := by
  cases text with
  | none => exact h
  | some s => exact ⟨trivial, h⟩

theorem allTextual_map {α : Type} {f : α → Json} (h : ∀ a, (f a).IsTextual) (l : List α) :
    AllTextual (l.map f) := by
  induction l with
  | nil => exact trivial
  | cons a l ih => exact ⟨h a, ih⟩

theorem Element.isTextual_toDocument (e : Element) : e.toDocument.IsTextual := by
  obtain ⟨target, property⟩ := e
  cases property with
  | none => exact ⟨trivial, trivial⟩
  | some text => exact ⟨trivial, trivial, trivial⟩

theorem Node.isTextual_toDocument (n : Node) : n.toDocument.IsTextual := by
  refine ⟨trivial, isTextual_optionalMember _ _ ?_⟩
  cases n.body with
  | token pattern => cases pattern <;> exact ⟨⟨trivial, trivial⟩, trivial⟩
  | deduction elements =>
    exact ⟨allTextual_map Element.isTextual_toDocument elements, trivial⟩
  | union members => exact ⟨allTextual_map (f := Json.string) (fun _ => trivial) members, trivial⟩

theorem Model.isTextual_toDocument (m : Model) : m.toDocument.IsTextual := by
  have hnodes (entries : List (String × Node)) :
      MembersTextual (entries.map fun e => (e.1, e.2.toDocument)) := by
    induction entries with
    | nil => exact trivial
    | cons e entries ih => exact ⟨e.2.isTextual_toDocument, ih⟩
  exact ⟨trivial, trivial, trivial, hnodes m.nodes.entries, trivial⟩

/-- **A model comes back from the text of its document**, with its nodes in order, whatever texts it
holds. -/
theorem Model.ofDocument?_parse?_render (m : Model) :
    parse? m.toDocument.render = some m.toDocument ∧
      (parse? m.toDocument.render).bind ofDocument? = some m := by
  have hparse := parse?_render m.isTextual_toDocument
  exact ⟨hparse, by rw [hparse, Option.bind_some, m.ofDocument?_toDocument]⟩

end GrammarKit
