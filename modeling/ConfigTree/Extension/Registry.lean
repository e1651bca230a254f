import ConfigTree.Extension.Loader
import ConfigTree.Extension.Name

/-!
# The registry of loaders

A registry maps extensions in normal form to loaders. It is kept sorted by extension. Registering
an extension again replaces its loader.
-/

namespace ConfigTree

/-- Loaders by normalised extension, in the order of the extensions. -/
structure Registry where
  /-- The entries, sorted. -/
  entries : Entries ExtensionLoader := []

namespace Registry

/-- The sorted entries with a key set to a value. -/
def insertSorted : Entries ExtensionLoader → String → ExtensionLoader → Entries ExtensionLoader
  | [], key, loader => [(key, loader)]
  | (k, l) :: es, key, loader =>
    if key < k then (key, loader) :: (k, l) :: es
    else if key = k then (key, loader) :: es
    else (k, l) :: insertSorted es key loader

/-- The loader registered for an extension in any spelling. -/
def get? (r : Registry) (extension : String) : Option ExtensionLoader :=
  Entries.get? r.entries (Extension.normalize extension)

/-- Whether an extension has a loader. -/
def contains (r : Registry) (extension : String) : Bool := (r.get? extension).isSome

/-- The registry with a loader registered for an extension. -/
def register (r : Registry) (extension : String) (loader : ExtensionLoader) : Registry :=
  ⟨insertSorted r.entries (Extension.normalize extension) loader⟩

/-- The registered extensions, in order. -/
def extensions (r : Registry) : List String := Entries.keys r.entries

/-- The number of registered extensions. -/
def size (r : Registry) : Nat := r.entries.length

end Registry

end ConfigTree
