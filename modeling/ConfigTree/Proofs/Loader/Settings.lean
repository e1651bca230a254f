import ConfigTree.Loader.Builder
import ConfigTree.Proofs.Extension.Registered
import Mathlib.Data.List.DropRight

/-!
# What settings leave

A loader is built from settings that are made one after another, in any order and as often as one likes. Each
writes one part of the builder: it replaces what is there, or adds to it. What is there in the end?

Of what is replaced, the last setting is left (`environment_setAll` and those like it). Data are merged in the
order in which they were given (`data_setAll`), and loaders are kept in that order (`extensionLoaders_setAll`).
What namespaces stand for is both replaced and added to: left are the last options of the resolver, with what was
set since then inserted in order (`globals_setAll`).
-/

namespace ConfigTree

/-- A setting that is made explicitly. -/
inductive Setting where
  /-- The suffix that selects environment files. -/
  | environment (environment : String)
  /-- Data that is merged over the data collected so far. -/
  | data (data : Document)
  /-- The key under which a document lists its imports. -/
  | importsKey (key : String)
  /-- The options of the resolver of placeholders. -/
  | resolverOptions (o : ResolverOptions)
  /-- What a namespace stands for. -/
  | global (name : String) (value : Value)
  /-- Whether placeholders can read the process environment. -/
  | processEnv (enabled : Bool)
  /-- Whether loads give the flat view. -/
  | flattenOutput (flatten : Bool)
  /-- YAML files can be loaded. -/
  | yaml
  /-- The resolver to be used in place of the resolver of placeholders. -/
  | resolver (resolver : Resolver)
  /-- A loader for an extension. -/
  | extensionLoader (extension : String) (loader : ExtensionLoader)

namespace Setting

/-- The suffix that it gives. -/
def environment? : Setting → Option String
  | environment e => some e
  | _ => none

/-- The data that it gives. -/
def data? : Setting → Option Document
  | data d => some d
  | _ => none

/-- The imports key that it gives. -/
def importsKey? : Setting → Option String
  | importsKey key => some key
  | _ => none

/-- The options of the resolver that it gives. -/
def resolverOptions? : Setting → Option ResolverOptions
  | resolverOptions o => some o
  | _ => none

/-- The namespace that it gives, with what it stands for. -/
def global? : Setting → Option (String × Value)
  | global name value => some (name, value)
  | _ => none

/-- What it says about the process environment, by itself or among the options of the resolver. -/
def processEnv? : Setting → Option Bool
  | resolverOptions o => some o.processEnv
  | processEnv enabled => some enabled
  | _ => none

/-- What it says about the flat view. -/
def flattenOutput? : Setting → Option Bool
  | flattenOutput flatten => some flatten
  | _ => none

/-- Whether it lets YAML files be loaded. -/
def isYaml : Setting → Bool
  | yaml => true
  | _ => false

/-- The loader that it registers, with its extension. -/
def registration? : Setting → Option (String × ExtensionLoader)
  | extensionLoader extension loader => some (extension, loader)
  | _ => none

end Setting

namespace LoaderBuilder

/-- The builder after a setting. -/
def set (b : LoaderBuilder) : Setting → LoaderBuilder
  | .environment e => b.withEnvironment e
  | .data d => b.withData d
  | .importsKey key => b.withImportsKey key
  | .resolverOptions o => b.withResolverOptions o
  | .global name value => b.withGlobal name value
  | .processEnv enabled => b.withProcessEnv enabled
  | .flattenOutput flatten => b.withFlattenOutput flatten
  | .yaml => b.withYaml
  | .resolver resolver => b.withResolver resolver
  | .extensionLoader extension loader => b.withExtensionLoader extension loader

/-- The builder after settings, made one after another. -/
def setAll (b : LoaderBuilder) (settings : List Setting) : LoaderBuilder := settings.foldl set b

variable (b : LoaderBuilder) (settings : List Setting)

/-! ### What is replaced -/

theorem environment_setAll :
    (b.setAll settings).environment = (settings.filterMap Setting.environment?).getLast?.or b.environment :=
  foldl_last_write LoaderBuilder.environment _ (fun _ s => by cases s <;> rfl) b settings

theorem importsKey_setAll :
    (b.setAll settings).importsKey = (settings.filterMap Setting.importsKey?).getLast?.or b.importsKey :=
  foldl_last_write LoaderBuilder.importsKey _ (fun _ s => by cases s <;> rfl) b settings

theorem flattenOutput_setAll :
    (b.setAll settings).flattenOutput =
      (settings.filterMap Setting.flattenOutput?).getLast?.or b.flattenOutput :=
  foldl_last_write LoaderBuilder.flattenOutput _ (fun _ s => by cases s <;> rfl) b settings

theorem processEnv_setAll :
    (b.setAll settings).resolverOptions.processEnv =
      (settings.filterMap Setting.processEnv?).getLast?.getD b.resolverOptions.processEnv := by
  have hlast : some (b.setAll settings).resolverOptions.processEnv =
      (settings.filterMap Setting.processEnv?).getLast?.or (some b.resolverOptions.processEnv) :=
    foldl_last_write (fun b : LoaderBuilder => some b.resolverOptions.processEnv) _
      (fun _ s => by cases s <;> rfl) b settings
  rw [← Option.some_inj]
  refine hlast.trans ?_
  cases (settings.filterMap Setting.processEnv?).getLast? <;> rfl

/-! ### What is added to -/

theorem data_setAll :
    (b.setAll settings).data = (settings.filterMap Setting.data?).foldl Document.merge b.data := by
  rw [setAll]
  induction settings generalizing b with
  | nil => rfl
  | cons s settings ih => cases s <;> exact ih _

theorem yaml_set (s : Setting) : (b.set s).yaml = (b.yaml || s.isYaml) := by
  cases s with
  | yaml => exact (Bool.or_true _).symm
  | _ => exact (Bool.or_false _).symm

theorem yaml_setAll : (b.setAll settings).yaml = (b.yaml || settings.any Setting.isYaml) := by
  rw [setAll]
  induction settings generalizing b with
  | nil => exact (Bool.or_false _).symm
  | cons s settings ih => rw [List.foldl_cons, ih, yaml_set, Bool.or_assoc, List.any_cons]

theorem extensionLoaders_set (s : Setting) :
    (b.set s).extensionLoaders = b.extensionLoaders ++ s.registration?.toList := by
  cases s with
  | extensionLoader extension loader => rfl
  | _ => exact (List.append_nil _).symm

theorem extensionLoaders_setAll :
    (b.setAll settings).extensionLoaders = b.extensionLoaders ++ settings.filterMap Setting.registration? := by
  rw [setAll]
  induction settings generalizing b with
  | nil => exact (List.append_nil _).symm
  | cons s settings ih =>
    rw [List.foldl_cons, ih, extensionLoaders_set, List.append_assoc, List.filterMap_cons]
    cases s.registration? <;> rfl

/-- The settings after the last one that gives the options of the resolver. -/
def sinceOptions (settings : List Setting) : List Setting :=
  settings.rtakeWhile fun s => s.resolverOptions?.isNone

theorem sinceOptions_append (settings : List Setting) (s : Setting) :
    sinceOptions (settings ++ [s]) = if s.resolverOptions?.isNone then sinceOptions settings ++ [s] else [] :=
  List.rtakeWhile_concat _ _ _

theorem globals_setAll :
    (b.setAll settings).resolverOptions.globals =
      Entries.insertAll ((settings.filterMap Setting.resolverOptions?).getLast?.getD b.resolverOptions).globals
        ((sinceOptions settings).filterMap Setting.global?) := by
  induction settings using List.reverseRecOn with
  | nil => rfl
  | append_singleton settings s ih =>
    have hlast : b.setAll (settings ++ [s]) = (b.setAll settings).set s := List.foldl_append
    have hnone : s.resolverOptions? = none → sinceOptions (settings ++ [s]) = sinceOptions settings ++ [s] ∧
        (settings ++ [s]).filterMap Setting.resolverOptions? = settings.filterMap Setting.resolverOptions? :=
      fun hs => ⟨by rw [sinceOptions_append, hs]; rfl, by simp [hs]⟩
    rw [hlast]
    cases s with
    | resolverOptions o =>
      rw [sinceOptions_append, List.filterMap_append]
      exact congrArg (fun o : Option ResolverOptions => (o.getD b.resolverOptions).globals) List.getLast?_concat.symm
    | global name value =>
      obtain ⟨hsince, hoptions⟩ := hnone rfl
      rw [hsince, hoptions, List.filterMap_append, Entries.insertAll, List.foldl_append]
      exact congrArg (Entries.insert · name value) ih
    | _ =>
      obtain ⟨hsince, hoptions⟩ := hnone rfl
      rw [hsince, hoptions, List.filterMap_append]
      exact ih.trans (congrArg _ (List.append_nil _).symm)

end LoaderBuilder

end ConfigTree
