import ConfigTree.Dotenv
import ConfigTree.Loader.Load

/-!
# Building a loader

A builder collects the defaults of a loader, from options, from single settings and from the
environment. What was set explicitly is never replaced by a variable of the environment, in whatever
order the settings come. JSON files can always be loaded; YAML files when asked for; and loaders that
were added explicitly come last and replace what was there.
-/

namespace ConfigTree

/-- The settings collected so far. -/
structure LoaderBuilder where
  /-- The suffix that selects environment files. -/
  environment : Option String := none
  /-- Data that is merged over every file. -/
  data : Document := []
  /-- The key under which a document lists its imports. -/
  importsKey : Option String := none
  /-- The options of the resolver of placeholders. -/
  resolverOptions : ResolverOptions := {}
  /-- Whether loads give the flat view. -/
  flattenOutput : Option Bool := none
  /-- Whether YAML files can be loaded. -/
  yaml : Bool := false
  /-- The resolver to be used in place of the resolver of placeholders. -/
  resolver : Option Resolver := none
  /-- The loaders added explicitly, with the extensions they are for. -/
  extensionLoaders : List (String × ExtensionLoader) := []

/-- The variables that a builder reads. -/
inductive SettingVariable where
  /-- The suffix that selects environment files. -/
  | environment
  /-- The key under which a document lists its imports. -/
  | importsKey
  /-- Whether loads give the flat view. -/
  | flatten
  /-- Whether the `.env` file is left alone. -/
  | dotenvDisabled
deriving DecidableEq, Repr

/-- The name of a variable that a builder reads. -/
def SettingVariable.name : SettingVariable → String
  | environment => "LAYERCONF_ENV"
  | importsKey => "LAYERCONF_IMPORTS_KEY"
  | flatten => "LAYERCONF_FLATTEN"
  | dotenvDisabled => "DOTENV_DISABLED"

namespace Environment

/-- The text of a variable without blanks around it; none when nothing is left. -/
def setting (env : Environment) (name : String) : Option String :=
  match env.lookup name with
  | none => none
  | some text =>
    let trimmed := Text.trim text
    if trimmed = "" then none else some trimmed

end Environment

namespace LoaderBuilder

/-- The builder that a record of options makes. -/
def ofOptions (o : LoaderOptions) : LoaderBuilder where
  environment := o.environment
  data := o.data
  importsKey := some o.importsKey
  resolverOptions := o.resolverOptions
  flattenOutput := some o.flattenOutput

/-- The truth value that a variable writes, in letters of either case. -/
def flagOf? (text : String) : Option Bool :=
  let word := String.ofList (Extension.lower text.toList)
  if ["true", "1", "yes"].contains word then some true
  else if ["false", "0", "no"].contains word then some false
  else none

/-- Fills in what was not set explicitly from the environment. -/
def fromEnv (b : LoaderBuilder) (env : Environment) : Except LoaderError LoaderBuilder :=
  let setting (v : SettingVariable) : Option String := env.setting v.name
  let b := { b with
    environment := b.environment.or (setting .environment)
    importsKey := b.importsKey.or (setting .importsKey) }
  match b.flattenOutput, setting .flatten with
  | none, some text =>
    match flagOf? text with
    | some flag => .ok { b with flattenOutput := some flag }
    | none =>
      .error (.invalidValue (SettingVariable.name .flatten) "must be true or false")
  | _, _ => .ok b

/-- Whether the environment asks to leave the `.env` file alone. -/
def dotenvDisabled (env : Environment) : Bool :=
  match env.lookup (SettingVariable.name .dotenvDisabled) with
  | some text => text = "true" || text = "1"
  | none => false

/-- The world with the variables of its `.env` file set, unless that is disabled, and the failure
that stopped it. -/
def loadDotenv (w : World) : World × Option LoaderError :=
  if dotenvDisabled w.env then (w, none)
  else
    match Dotenv.load w with
    | (w, none) => (w, none)
    | (w, some (.parse position)) => (w, some (.dotenvParse position))
    | (w, some (.read source)) => (w, some (.dotenvRead source))

/-- Sets the suffix that selects environment files. -/
def withEnvironment (b : LoaderBuilder) (environment : String) : LoaderBuilder :=
  { b with environment := some environment }

/-- Merges data over the data collected so far. -/
def withData (b : LoaderBuilder) (data : Document) : LoaderBuilder :=
  { b with data := Document.merge b.data data }

/-- Sets the key under which a document lists its imports. -/
def withImportsKey (b : LoaderBuilder) (key : String) : LoaderBuilder :=
  { b with importsKey := some key }

/-- Replaces the options of the resolver of placeholders. -/
def withResolverOptions (b : LoaderBuilder) (o : ResolverOptions) : LoaderBuilder :=
  { b with resolverOptions := o }

/-- Sets what a namespace stands for. -/
def withGlobal (b : LoaderBuilder) (name : String) (value : Value) : LoaderBuilder :=
  { b with resolverOptions :=
      { b.resolverOptions with globals := Entries.insert b.resolverOptions.globals name value } }

/-- Sets whether placeholders can read the process environment. -/
def withProcessEnv (b : LoaderBuilder) (enabled : Bool) : LoaderBuilder :=
  { b with resolverOptions := { b.resolverOptions with processEnv := enabled } }

/-- Sets whether loads give the flat view. -/
def withFlattenOutput (b : LoaderBuilder) (flatten : Bool) : LoaderBuilder :=
  { b with flattenOutput := some flatten }

/-- Lets YAML files be loaded. -/
def withYaml (b : LoaderBuilder) : LoaderBuilder := { b with yaml := true }

/-- Sets the resolver to be used in place of the resolver of placeholders. -/
def withResolver (b : LoaderBuilder) (resolver : Resolver) : LoaderBuilder :=
  { b with resolver := some resolver }

/-- Adds a loader for an extension. -/
def withExtensionLoader (b : LoaderBuilder) (extension : String) (loader : ExtensionLoader) :
    LoaderBuilder :=
  { b with extensionLoaders := b.extensionLoaders ++ [(extension, loader)] }

/-- The options that the built loader would have. -/
def options (b : LoaderBuilder) : LoaderOptions where
  environment := b.environment
  data := b.data
  importsKey := b.importsKey.getD defaultImportsKey
  resolverOptions := b.resolverOptions
  flattenOutput := b.flattenOutput.getD false

/-- The loaders that are there before those added explicitly. -/
def builtInLoaders (b : LoaderBuilder) : List (String × ExtensionLoader) :=
  (".json", .json) :: if b.yaml then [(".yaml", .yaml), (".yml", .yaml)] else []

/-- The registry of the built loader. -/
def registry (b : LoaderBuilder) : Registry :=
  (b.builtInLoaders ++ b.extensionLoaders).foldl (fun r e => r.register e.1 e.2) {}

/-- The loader. -/
def build (b : LoaderBuilder) : Loader where
  options := b.options
  registry := b.registry
  resolver env :=
    match b.resolver with
    | some resolver => resolver
    | none => .placeholders b.resolverOptions env

end LoaderBuilder

/-- The loader after one more loader for single files is registered, in place of the one that was there for the
extension. -/
def Loader.register (l : Loader) (extension : String) (loader : ExtensionLoader) : Loader :=
  { l with registry := l.registry.register extension loader }

end ConfigTree
