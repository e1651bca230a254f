import ConfigTree.Reference.Error
import ConfigTree.Value

/-!
# Resolvers

A resolver replaces the references of a document, either everywhere or below one top-level key.
Whoever loads a file may bring a resolver of their own.

A finalized entry must come out of a pass exactly as it went in. A resolver that knows nothing of
finalized entries can still be used: the entry is hidden from it and put back afterwards
(`Resolver.ofResolve`).

## The model

A resolver is any function from documents to documents, with a failure or without. Hiding takes the
entry out and moves the last entry into its place. Afterwards the keys return in their first order,
each with the value that the resolver left under it, and keys that the resolver added follow.
-/

namespace ConfigTree

/-- The outcome of a pass: the document afterwards, and what stopped the pass, if anything did. -/
structure Resolution where
  /-- The document afterwards. -/
  document : Document
  /-- Why the pass stopped. -/
  failure : Option ReferenceError
deriving DecidableEq

theorem Resolution.failure_eq_none_iff {r : Resolution} :
    r.failure = none ↔ ∃ d, r = ⟨d, none⟩ := by
  obtain ⟨d, failure⟩ := r
  simp

/-- Something that replaces the references of a document. -/
structure Resolver where
  /-- Resolves the whole document, or what stands under one key. -/
  resolve : Document → Option String → Resolution
  /-- Resolves the whole document but for the entry of one key. -/
  resolveExcept : Document → String → Resolution

namespace Resolver

/-- The document that a resolver is shown in place of one with a finalized entry. -/
def hide (d : Document) (finalized : String) : Document := Entries.swapErase d finalized

/-- Puts entries back in the order of the given keys: the finalized entry with the value that was
kept, the others as they are found among `rest`, and at the end what is left of `rest`. -/
def restore (finalized : String) (kept : Value) : List String → Document → Document → Document
  | [], done, rest => Entries.insertAll done rest
  | key :: keys, done, rest =>
    if key = finalized then restore finalized kept keys (Entries.insert done key kept) rest
    else
      match Entries.get? rest key with
      | some value =>
        restore finalized kept keys (Entries.insert done key value) (Entries.swapErase rest key)
      | none => restore finalized kept keys done rest

/-- A pass around a finalized entry, for a resolver that knows only whole passes. -/
def resolveHiding (resolve : Document → Option String → Resolution) (d : Document)
    (finalized : String) : Resolution :=
  match Entries.get? d finalized with
  | none => resolve d none
  | some kept =>
    let r := resolve (hide d finalized) none
    ⟨restore finalized kept (Entries.keys d) [] r.document, r.failure⟩

/-- The resolver that hides finalized entries from a function that resolves documents. -/
def ofResolve (resolve : Document → Option String → Resolution) : Resolver :=
  ⟨resolve, resolveHiding resolve⟩

end Resolver

end ConfigTree
