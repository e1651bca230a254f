import ConfigTree.Document.Merge
import ConfigTree.Reference.Pass

/-!
# Options of a loader and of a single load

A loader has defaults for every load. A single load may override them: data it brings is merged
over the data of the loader, and every other option it gives replaces the default.
-/

namespace ConfigTree

/-- The key under which a document lists the files it imports, unless another is chosen. -/
def defaultImportsKey : String := "imports"

/-- The defaults of a loader. -/
structure LoaderOptions where
  /-- The suffix that selects environment files. -/
  environment : Option String := none
  /-- Data that is merged over every file. -/
  data : Document := []
  /-- The key under which a document lists its imports. -/
  importsKey : String := defaultImportsKey
  /-- The options of the resolver of placeholders. -/
  resolverOptions : ResolverOptions := {}
  /-- Whether loads give the flat view. -/
  flattenOutput : Bool := false
deriving DecidableEq

/-- What a single load overrides. -/
structure LoadOptions where
  /-- The suffix that selects environment files. -/
  environment : Option String := none
  /-- Data that is merged over the data of the loader. -/
  data : Option Document := none
  /-- The key under which a document lists its imports. -/
  importsKey : Option String := none
  /-- Whether the load gives the flat view. -/
  flattenOutput : Option Bool := none
deriving DecidableEq

/-- The options in force for one load and all that it imports. -/
structure EffectiveOptions where
  /-- The suffix that selects environment files. -/
  environment : Option String
  /-- Data that is merged over every file. -/
  data : Document
  /-- The key under which a document lists its imports. -/
  importsKey : String
  /-- Whether the load gives the flat view. -/
  flattenOutput : Bool
deriving DecidableEq

/-- The options in force when a load overrides some of the defaults. -/
def LoaderOptions.effective (o : LoaderOptions) (overrides : LoadOptions) : EffectiveOptions where
  environment := overrides.environment.or o.environment
  data :=
    match overrides.data with
    | some extra => Document.merge o.data extra
    | none => o.data
  importsKey := overrides.importsKey.getD o.importsKey
  flattenOutput := overrides.flattenOutput.getD o.flattenOutput

end ConfigTree
