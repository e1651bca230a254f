import ConfigTree.Path.Fault
import ConfigTree.Value

/-!
# Reading, writing and removing at a path

`get?`, `set` and `remove` follow a path through a value; the functions on `Document` do the same
from the top of a document, where an index stands for the key with its decimal text.

## The model

Reading is lenient: an index reads the key with its decimal text from a mapping, and a key that is
an index reads the item from a sequence. Writing and removing are strict: keys belong to mappings
and indices to sequences. Writing makes the mappings that are missing on the way, and may append to
a sequence at exactly its length. It never replaces a scalar that stands in the way; what it made
before it was stopped stays, so the tree is given in either case, beside the fault.
-/

namespace ConfigTree

/-- The outcome of writing into a tree: the tree afterwards, and what stopped the writing, if
anything did. -/
structure Written (α : Type) where
  /-- The tree afterwards. -/
  tree : α
  /-- Why nothing was written. -/
  fault : Option Path.Fault

/-- Whether the value was written, with the error that names the canonical text of the path. -/
def Written.outcome {α : Type} (w : Written α) (p : Path) : Except PathError Unit :=
  match w.fault with
  | none => .ok ()
  | some fault => .error ⟨p.render, fault⟩

/-- The outcome of removing from a tree: the tree afterwards, and what was removed. -/
structure Removed (α : Type) where
  /-- The tree afterwards. -/
  tree : α
  /-- The value that was there. -/
  value : Option Value

namespace Value

/-- The child of a value that one segment reads. -/
def child? : Value → Segment → Option Value
  | .mapping es, .key name => Entries.get? es name
  | .mapping es, .index i => Entries.get? es (toString i)
  | .sequence items, .index i => items[i]?
  | .sequence items, .key name => (Text.readIndex? name.toList).bind (items[·]?)
  | _, _ => none

/-- The value at a path. -/
def get? (root : Value) : Path → Option Value
  | [] => some root
  | s :: rest => (root.child? s).bind (·.get? rest)

/-- The tree with a value written at a path. -/
def set (root : Value) : Path → Value → Written Value
  | [], value => ⟨value, none⟩
  | [last], value =>
    match root, last with
    | .mapping es, .key name => ⟨.mapping (Entries.insert es name value), none⟩
    | .sequence items, .index i =>
      if i < items.length then ⟨.sequence (items.set i value), none⟩
      else if i = items.length then ⟨.sequence (items ++ [value]), none⟩
      else ⟨root, some .notAContainer⟩
    | _, _ => ⟨root, some .notAContainer⟩
  | s :: rest, value =>
    match root, s with
    | .mapping es, .key name =>
      let below := ((Entries.get? es name).getD (.mapping [])).set rest value
      ⟨.mapping (Entries.insert es name below.tree), below.fault⟩
    | .sequence items, .index i =>
      match items[i]? with
      | some item =>
        let below := item.set rest value
        ⟨.sequence (items.set i below.tree), below.fault⟩
      | none => ⟨root, some (.blocked s)⟩
    | _, _ => ⟨root, some (.blocked s)⟩

/-- The tree without the value at a path. -/
def remove (root : Value) : Path → Removed Value
  | [] => ⟨root, none⟩
  | [last] =>
    match root, last with
    | .mapping es, .key name => ⟨.mapping (Entries.erase es name), Entries.get? es name⟩
    | .sequence items, .index i => ⟨.sequence (items.eraseIdx i), items[i]?⟩
    | _, _ => ⟨root, none⟩
  | s :: rest =>
    match root, s with
    | .mapping es, .key name =>
      match Entries.get? es name with
      | some item =>
        let below := item.remove rest
        ⟨.mapping (Entries.insert es name below.tree), below.value⟩
      | none => ⟨root, none⟩
    | .sequence items, .index i =>
      match items[i]? with
      | some item =>
        let below := item.remove rest
        ⟨.sequence (items.set i below.tree), below.value⟩
      | none => ⟨root, none⟩
    | _, _ => ⟨root, none⟩

end Value

namespace Document

/-- The value at a path of a document; the empty path leads nowhere. -/
def get? (d : Document) : Path → Option Value
  | [] => none
  | s :: rest => (Entries.get? d s.documentKey).bind (·.get? rest)

/-- The document with a value written at a path. -/
def set (d : Document) : Path → Value → Written Document
  | [], _ => ⟨d, some .documentRoot⟩
  | [s], value => ⟨Entries.insert d s.documentKey value, none⟩
  | s :: rest, value =>
    let below := ((Entries.get? d s.documentKey).getD (.mapping [])).set rest value
    ⟨Entries.insert d s.documentKey below.tree, below.fault⟩

/-- The document without the value at a path. -/
def remove (d : Document) : Path → Removed Document
  | [] => ⟨d, none⟩
  | [s] => ⟨Entries.erase d s.documentKey, Entries.get? d s.documentKey⟩
  | s :: rest =>
    match Entries.get? d s.documentKey with
    | some item =>
      let below := item.remove rest
      ⟨Entries.insert d s.documentKey below.tree, below.value⟩
    | none => ⟨d, none⟩

end Document

end ConfigTree
