import ConfigTree.Extension.Registry
import ConfigTree.Loader.Options
import ConfigTree.Loader.Run

/-!
# Loading a file and what it imports

A file is loaded in steps. The loader of its extension reads it; its environment file, if there is
one, is merged over it; the data that the caller forces is merged over that. If the result has a
list under the imports key, the references in that list are resolved, its entries are made
normalised paths, and the files they name are loaded in the same way. The imported documents are
merged in the order of the list, and the importing document over them.

## The model

`own` is what a file gives by itself: its document, with the paths it imports. `loadDocument` adds
the imports. It carries the chain of files that lead to the present one; a file that is on its own
chain is a cycle. Each level of importing uses one unit of fuel, and a load that has none left is cut.

The files on an import list are to be loaded together, and so are a file and its environment file: the
first failure that happens, in whichever of them, is the failure of them all. Here they are loaded one
after another, a file before its environment file and imports in the order of the list, so where several
fail it is always the first listed that tells. Only failures depend on this. All that a load can end with
when things are loaded together is told by a relation, `CanEnd`.

Nothing bounds how deep imports are nested: a loader of the caller may answer for any path at all. So
a load that is cut is made again with more fuel, as often as it takes (`loadDeep`). It is made once
where loaders read files, as the files on a chain are different and `nestingLimit` exceeds their
number.
-/

namespace ConfigTree

/-- What loads are done with. -/
structure Loader where
  /-- The defaults of every load. -/
  options : LoaderOptions
  /-- The loaders for single files. -/
  registry : Registry
  /-- What replaces references, given the environment. -/
  resolver : Environment → Resolver

/-- What a file gives by itself. -/
structure Own where
  /-- The document, its import list made of normalised paths. -/
  document : Document
  /-- The paths that the document imports. -/
  imports : List String
deriving DecidableEq

namespace Loader

/-- The document that the loader of an extension gives for a path. -/
def hand (w : World) (extension : String) (loader : ExtensionLoader) (path : String) :
    Run Document := do
  Run.note (.handed extension path)
  match loader.load w path with
  | .ok d => return d
  | .error e => Run.fail (.load path e)

/-- The document of the environment file of a file, if there is one. -/
def overlay (w : World) (extension : String) (loader : ExtensionLoader) (path : String) :
    Option String → Run (Option Document)
  | none => return none
  | some environment =>
    if environment = "" then return none
    else
      let sibling := Extension.sibling path environment
      match w.exists? sibling with
      | .error e => Run.fail (.load sibling (.os e))
      | .ok false => return none
      | .ok true => do return some (← hand w extension loader sibling)

/-- The document of a file, with that of its environment file merged over it. -/
def loadWithEnvironment (w : World) (extension : String) (loader : ExtensionLoader) (path : String)
    (environment : Option String) : Run Document := do
  let base ← hand w extension loader path
  match ← overlay w extension loader path environment with
  | none => return base
  | some d => return Document.merge base d

/-- The directory against which the imports of a file are read. -/
def importBase (path : String) : String :=
  if path = "" then "/" else FilePath.directory path

/-- The entries of an import list as normalised paths. -/
def importPaths (w : World) (path : String) (index : Nat) :
    List Value → Except LoaderError (List String)
  | [] => .ok []
  | .string raw :: rest =>
    (importPaths w path (index + 1) rest).map
      (FilePath.normalize w.cwd (FilePath.join (importBase path) raw) :: ·)
  | _ :: _ => .error (.invalidImport path index)

/-- The references of an import list resolved, and its entries made normalised paths. -/
def resolveImports (l : Loader) (w : World) (key path : String) (d : Document) : Run Own := do
  Run.note (.resolve (some key) d)
  let r := (l.resolver w.env).resolve d (some key)
  match r.failure with
  | some e => Run.fail (.reference path e)
  | none =>
    match Entries.get? r.document key with
    | some (.sequence entries) =>
      let paths ← Run.ofExcept (importPaths w path 0 entries)
      return ⟨Entries.insert r.document key (.sequence (paths.map .string)), paths⟩
    | _ => Run.fail (.invalidImport path 0)

/-- What a file gives by itself. -/
def own (l : Loader) (w : World) (o : EffectiveOptions) (path : String) : Run Own := do
  let extension := Extension.ofPath path
  match l.registry.get? extension with
  | none => Run.fail (.unregisteredExtension extension path)
  | some loader =>
    let loaded ← loadWithEnvironment w extension loader path o.environment
    let d := Document.merge loaded o.data
    match Entries.get? d o.importsKey with
    | some (.sequence _) => l.resolveImports w o.importsKey path d
    | _ => return ⟨d, []⟩

/-- The document of a file and of what it imports, when `chain` leads to it. -/
def loadDocument (l : Loader) (w : World) (o : EffectiveOptions) :
    Nat → List String → String → Run Document
  | fuel, chain, path => do
    Run.note (.visit chain path)
    if path ∈ chain then Run.fail (.cyclicImport path (chain ++ [path]))
    else
      match fuel with
      | 0 => do
        Run.note (.tooDeep path)
        Run.fail (.cyclicImport path (chain ++ [path]))
      | fuel + 1 =>
        let self ← l.own w o path
        if self.imports = [] then return self.document
        else
          let children ← self.imports.mapM (loadDocument l w o fuel (chain ++ [path]))
          return Document.mergeAll (children ++ [self.document])

/-- How deep imports are first allowed to be nested. -/
def nestingLimit (w : World) : Nat :=
  w.fileCount + World.pathLimit + 1

/-- The load of a file with imports nested up to a limit, which is raised until it is enough. There
is none when imports lead on for ever. -/
def loadDeep (l : Loader) (w : World) (o : EffectiveOptions) (path : String) (limit : Nat) :
    Option (Run Document) :=
  let r := l.loadDocument w o limit [] path
  if r.isCut then (l |>.loadDeep w o path (2 * limit + 1)) else some r
partial_fixpoint

/-- The document of a file and of all it imports, references outside import lists left alone. A load
that never ends has no document. -/
def loadRaw (l : Loader) (w : World) (path : String) (overrides : LoadOptions) : Run Document :=
  let path := FilePath.normalize w.cwd path
  match l.loadDeep w (l.options.effective overrides) path (nestingLimit w) with
  | some r => r
  | none => Run.fail (.cyclicImport path [])

end Loader

end ConfigTree
