import ConfigTree.Environment
import ConfigTree.Loader.Builder

/-!
# Arguments of the command

The command takes one file and options, in any order. An option has a long name after two minus
signs, and some have a letter after one. Options with a text take it after an equals sign or as the
next argument; after the letter it may also follow at once. Letters can be put together. Two minus
signs alone end the options.

## The model

Reading goes in two steps. `Item.ofArguments` says what each argument is, whatever else is given;
`Request.ofItems` collects them. The first item that is no good stops the reading, and so does
asking for help. Only `--set` may be given more than once.
-/

namespace ConfigTree.CommandLine

/-- An option without a text. -/
inductive Flag where
  /-- Print the flat view. -/
  | flatten
  /-- Hide the process environment from references. -/
  | noProcessEnv
  /-- Leave references alone. -/
  | raw
  /-- Tell more about the run. -/
  | verbose
  /-- Tell about the run in lines of JSON. -/
  | logJson
  /-- Say how the command is used. -/
  | help
  /-- Say which version this is. -/
  | version
deriving DecidableEq, Repr

/-- An option with a text. -/
inductive Field where
  /-- The suffix that selects environment files. -/
  | environment
  /-- Data that is merged over every file. -/
  | data
  /-- A path and the value forced there. -/
  | set
  /-- The key under which a document lists its imports. -/
  | importsKey
  /-- The path of the value to print. -/
  | get
  /-- The format to print in. -/
  | format
deriving DecidableEq, Repr

/-- What an argument is. -/
inductive Item where
  /-- An option without a text. -/
  | flag (f : Flag)
  /-- An option with its text. -/
  | field (f : Field) (text : String)
  /-- A file. -/
  | file (path : String)
  /-- Something that no option is. -/
  | unreadable
deriving DecidableEq, Repr

/-- The option with a long name. -/
def longName? (name : List Char) : Option (Flag ⊕ Field) :=
  [("env", .inr .environment), ("data", .inr .data), ("set", .inr .set),
    ("imports-key", .inr .importsKey), ("get", .inr .get), ("format", .inr .format),
    ("flatten", .inl .flatten), ("no-process-env", .inl .noProcessEnv), ("raw", .inl .raw),
    ("verbose", .inl .verbose), ("log-json", .inl .logJson), ("help", .inl .help),
    ("version", .inl .version)].lookup (String.ofList name)

/-- The option with a letter. -/
def letter? (c : Char) : Option (Flag ⊕ Field) :=
  [('e', .inr .environment), ('f', .inr .format), ('v', .inl .verbose), ('h', .inl .help),
    ('V', .inl .version)].lookup c

namespace Item

/-- What letters after one minus sign are, and the option that still waits for its text. -/
def ofLetters : List Char → List Item × Option Field
  | [] => ([], none)
  | c :: cs =>
    match letter? c with
    | none => ([.unreadable], none)
    | some (.inl f) =>
      let (items, waiting) := ofLetters cs
      (.flag f :: items, waiting)
    | some (.inr f) =>
      match cs with
      | [] => ([], some f)
      | '=' :: cs => ([.field f (String.ofList cs)], none)
      | cs => ([.field f (String.ofList cs)], none)

/-- What a name after two minus signs is, perhaps with an equals sign and a text, and the option
that still waits for its text. -/
def ofLong (cs : List Char) : List Item × Option Field :=
  let name := cs.takeWhile (· ≠ '=')
  let text? := (cs.drop name.length).tail?.map String.ofList
  match longName? name, text? with
  | some (.inl f), none => ([.flag f], none)
  | some (.inr f), some text => ([.field f text], none)
  | some (.inr f), none => ([], some f)
  | _, _ => ([.unreadable], none)

/-- What an argument is by itself, and the option that still waits for its text. -/
def ofArgument (arg : String) : List Item × Option Field :=
  match arg.toList with
  | '-' :: '-' :: cs => ofLong cs
  | '-' :: c :: cs => ofLetters (c :: cs)
  | _ => ([.file arg], none)

/-- Whether an argument can only be an option. -/
def isOption (arg : String) : Bool := 1 < arg.length && arg.startsWith "-"

/-- What the arguments are. -/
def ofArguments : List String → List Item
  | [] => []
  | "--" :: rest => rest.map .file
  | [arg] =>
    match ofArgument arg with
    | (items, none) => items
    | (items, some _) => items ++ [.unreadable]
  | arg :: text :: rest =>
    match ofArgument arg with
    | (items, none) => items ++ ofArguments (text :: rest)
    | (items, some f) =>
      if isOption text then items ++ [.unreadable]
      else items ++ .field f text :: ofArguments rest

end Item

/-- A format to print in. -/
inductive Format where
  /-- JSON over several lines. -/
  | json
  /-- YAML in block style. -/
  | yaml
deriving DecidableEq, Repr

/-- The format with a name. -/
def Format.ofName? (name : String) : Option Format :=
  if name = "json" then some .json else if name = "yaml" then some .yaml else none

/-- What the command is asked to do. -/
structure Request where
  /-- The file to load. -/
  file : Option String := none
  /-- The suffix that selects environment files. -/
  environment : Option String := none
  /-- Data that is merged over every file, as JSON. -/
  data : Option String := none
  /-- Paths and the values forced there, in order. -/
  assignments : List String := []
  /-- The key under which a document lists its imports. -/
  importsKey : Option String := none
  /-- The path of the value to print. -/
  get : Option String := none
  /-- The format to print in. -/
  format : Option Format := none
  /-- Whether the flat view is printed. -/
  flatten : Bool := false
  /-- Whether the process environment is hidden from references. -/
  noProcessEnv : Bool := false
  /-- Whether references are left alone. -/
  raw : Bool := false
  /-- Whether more is told about the run. -/
  verbose : Bool := false
  /-- Whether the run is told about in lines of JSON. -/
  logJson : Bool := false
deriving DecidableEq, Repr

/-- Why there is nothing to load. -/
inductive Refusal where
  /-- The arguments are not understood. -/
  | usage
  /-- Help is asked for. -/
  | help
  /-- The version is asked for. -/
  | version
deriving DecidableEq, Repr

namespace Request

/-- The request with one more option that has no text. -/
def addFlag (r : Request) : Flag → Except Refusal Request
  | .flatten => if r.flatten then .error .usage else .ok { r with flatten := true }
  | .noProcessEnv => if r.noProcessEnv then .error .usage else .ok { r with noProcessEnv := true }
  | .raw => if r.raw then .error .usage else .ok { r with raw := true }
  | .verbose => if r.verbose then .error .usage else .ok { r with verbose := true }
  | .logJson => if r.logJson then .error .usage else .ok { r with logJson := true }
  | .help => .error .help
  | .version => .error .version

/-- The request with one more option that has a text. -/
def addField (r : Request) (text : String) : Field → Except Refusal Request
  | .environment =>
    if r.environment.isSome then .error .usage else .ok { r with environment := some text }
  | .data => if r.data.isSome then .error .usage else .ok { r with data := some text }
  | .set => .ok { r with assignments := r.assignments ++ [text] }
  | .importsKey =>
    if r.importsKey.isSome then .error .usage else .ok { r with importsKey := some text }
  | .get => if r.get.isSome then .error .usage else .ok { r with get := some text }
  | .format =>
    match r.format, Format.ofName? text with
    | none, some format => .ok { r with format := some format }
    | _, _ => .error .usage

/-- The request with one more item. -/
def add (r : Request) : Item → Except Refusal Request
  | .flag f => r.addFlag f
  | .field f text => r.addField text f
  | .file path =>
    if r.file.isSome ∨ path = "" then .error .usage else .ok { r with file := some path }
  | .unreadable => .error .usage

/-- The request that items make. -/
def ofItems (items : List Item) : Except Refusal Request := items.foldlM add {}

/-- The request that arguments make. -/
def ofArguments (args : List String) : Except Refusal Request := ofItems (Item.ofArguments args)

/-- The request with what it leaves open taken from the environment, as it is written there. -/
def withEnvironment (r : Request) (env : Environment) : Request :=
  { r with
    environment := r.environment.or (env.lookup (SettingVariable.name .environment))
    importsKey := r.importsKey.or (env.lookup (SettingVariable.name .importsKey)) }

end Request

end ConfigTree.CommandLine
