import ConfigTree.Path.Access
import ConfigTree.Path.Parser

/-!
# The flat view of a document

A document can be read as a list of leaves, each under its canonical path. A leaf is a scalar, an
empty sequence or an empty mapping. The flat view reads, writes and removes by the text of a path.

## The model

`Document.positions` lists the leaves with their paths in depth-first order, and
`FlatDocument.leaves` writes each path as text. Different paths have different canonical texts, so
no leaf hides another.
-/

namespace ConfigTree

mutual

/-- The leaves of a value that stands at the path `here`, with their paths. -/
def Value.positionsAt (here : Path) : Value → List (Path × Value)
  | .null => [(here, .null)]
  | .bool b => [(here, .bool b)]
  | .number n => [(here, .number n)]
  | .string s => [(here, .string s)]
  | .sequence items =>
    if items.isEmpty then [(here, .sequence items)] else Value.positionsOfItems here 0 items
  | .mapping entries =>
    if entries.isEmpty then [(here, .mapping entries)] else Value.positionsOfEntries here entries

/-- The leaves of the items of a sequence from the index `i` on. -/
def Value.positionsOfItems (here : Path) (i : Nat) : List Value → List (Path × Value)
  | [] => []
  | v :: vs => Value.positionsAt (here ++ [.index i]) v ++ Value.positionsOfItems here (i + 1) vs

/-- The leaves of the entries of a mapping. -/
def Value.positionsOfEntries (here : Path) : List (String × Value) → List (Path × Value)
  | [] => []
  | (k, v) :: es => Value.positionsAt (here ++ [.key k]) v ++ Value.positionsOfEntries here es

end

/-- The leaves of a document with their paths, in depth-first order. -/
def Document.positions (d : Document) : List (Path × Value) := Value.positionsOfEntries [] d

/-- A document that is addressed by the texts of paths. -/
structure FlatDocument where
  /-- The document itself. -/
  document : Document

namespace FlatDocument

/-- The value at a path text; none also when the text is not a path. -/
def get? (flat : FlatDocument) (text : String) : Option Value :=
  match Path.parse text with
  | .ok p => flat.document.get? p
  | .error _ => none

/-- Whether there is a value at a path text. -/
def has (flat : FlatDocument) (text : String) : Bool := (flat.get? text).isSome

/-- The view with a value written at a path text, and the error that stopped the writing. -/
def set (flat : FlatDocument) (text : String) (value : Value) :
    FlatDocument × Except PathError Unit :=
  match Path.parseText text with
  | .error e => (flat, .error e)
  | .ok p =>
    let written := flat.document.set p value
    (⟨written.tree⟩, written.outcome p)

/-- The view without the value at a path text, and that value. -/
def remove (flat : FlatDocument) (text : String) : FlatDocument × Option Value :=
  match Path.parse text with
  | .error _ => (flat, none)
  | .ok p =>
    let removed := flat.document.remove p
    (⟨removed.tree⟩, removed.value)

variable {flat : FlatDocument} {text : String} {p : Path} {v : Value}

theorem get?_eq_some_iff :
    flat.get? text = some v ↔ ∃ p, Path.parse text = .ok p ∧ flat.document.get? p = some v := by
  rw [get?]
  cases Path.parse text with
  | error fault => simp
  | ok p => simp

theorem set_of_parse (h : Path.parse text = .ok p) (value : Value) :
    flat.set text value = (⟨(flat.document.set p value).tree⟩, (flat.document.set p value).outcome p) := by
  rw [set, Path.parseText, h]

theorem remove_of_parse (h : Path.parse text = .ok p) :
    flat.remove text = (⟨(flat.document.remove p).tree⟩, (flat.document.remove p).value) := by
  rw [remove, h]

/-- The leaves, each under its canonical path. -/
def leaves (flat : FlatDocument) : Entries Value :=
  Entries.ofList (flat.document.positions.map fun leaf => (leaf.1.render, leaf.2))

end FlatDocument

/-- What loading a file gives: a document, or the flat view of one. -/
inductive LoadOutput where
  /-- The document. -/
  | document (d : Document)
  /-- The flat view of the document. -/
  | flattened (flat : FlatDocument)

namespace LoadOutput

/-- The document, in either shape. -/
def toDocument : LoadOutput → Document
  | .document d => d
  | .flattened flat => flat.document

/-- Whether the document was flattened. -/
def isFlattened : LoadOutput → Bool
  | .document _ => false
  | .flattened _ => true

/-- The value at a path text, in either shape. -/
def get? (output : LoadOutput) (text : String) : Option Value :=
  FlatDocument.get? ⟨output.toDocument⟩ text

end LoadOutput

end ConfigTree
