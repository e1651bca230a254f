import ConfigTree.Document.Flat
import ConfigTree.Loader.Imports

/-!
# Loading a configuration

A load reads a file with all it imports and then resolves the references of the whole document. A
list of imports that is still there was finalized when the imports were loaded: the last pass leaves
it as it is. The result is the document, or its flat view.
-/

namespace ConfigTree.Loader

/-- Resolves the references of a loaded document. -/
def resolveLoaded (l : Loader) (w : World) (importsKey path : String) (d : Document) :
    Run Document := do
  let finalized :=
    match Entries.get? d importsKey with
    | some v => v.isSequence
    | none => false
  let r ←
    if finalized then do
      Run.note (.resolveExcept importsKey d)
      pure ((l.resolver w.env).resolveExcept d importsKey)
    else do
      Run.note (.resolve none d)
      pure ((l.resolver w.env).resolve d none)
  match r.failure with
  | some e => Run.fail (.reference path e)
  | none => return r.document

/-- Loads a file with some of the defaults overridden. -/
def loadWith (l : Loader) (w : World) (path : String) (overrides : LoadOptions) :
    Run LoadOutput := do
  let o := l.options.effective overrides
  let loaded ← l.loadRaw w path overrides
  let d ← l.resolveLoaded w o.importsKey (FilePath.normalize w.cwd path) loaded
  return if o.flattenOutput then .flattened ⟨d⟩ else .document d

/-- Loads a file with the defaults of the loader. -/
def load (l : Loader) (w : World) (path : String) : Run LoadOutput := l.loadWith w path {}

end ConfigTree.Loader
