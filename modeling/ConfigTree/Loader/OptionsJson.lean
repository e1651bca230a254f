import ConfigTree.Json.Printer
import ConfigTree.Json.Reader
import ConfigTree.Loader.Options

/-!
# Options written as JSON

Options can be written as a JSON object. Fields are optional, fields of other names are ignored
whatever they hold, and a field may be given once only, also when it has two names. They can also be
written as an array that gives the fields by their position, the last ones left out. Written out,
all fields are given, in their order.

## The model

A record is first cut into the texts of its fields. Each known field has its names and a reader;
`null` stands for a value only where the field itself is optional.
-/

namespace ConfigTree

namespace Json.Record

/-- The text given for the field at a position, or under one of its names. Fails when it is given
more than once. -/
def field? (names : List String) (position : Nat) : Record → Option (Option (List Char))
  | .items texts => some texts[position]?
  | .fields named =>
    match named.filter fun f => names.contains f.1 with
    | [] => some none
    | [f] => some (some f.2)
    | _ => none

/-- Whether there are no more items than the record has fields. -/
def fits (count : Nat) : Record → Bool
  | .items texts => texts.length ≤ count
  | .fields _ => true

/-- The field read by `read`, or `default` when it is not given. -/
def get {α : Type} (r : Record) (names : List String) (position : Nat) (default : α)
    (read : List Char → Option α) : Option α :=
  match r.field? names position with
  | none => none
  | some none => some default
  | some (some text) => read text

end Json.Record

namespace OptionsJson

open Json (Record)

/-- Reads a value that stands inside `depth` containers. -/
def valueAt (depth : Nat) (text : List Char) : Option Value :=
  Json.parseWithin (Json.depthLimit - depth) text

/-- Reads a text. -/
def text (cs : List Char) : Option String :=
  match valueAt 0 cs with
  | some (.string s) => some s
  | _ => none

/-- Reads a truth value. -/
def flag (cs : List Char) : Option Bool :=
  match valueAt 0 cs with
  | some (.bool b) => some b
  | _ => none

/-- Reads a document that stands inside `depth` containers. -/
def document (depth : Nat) (cs : List Char) : Option Document :=
  match valueAt depth cs with
  | some (.mapping es) => some es
  | _ => none

/-- Reads `null` as nothing, and everything else as `read` does. -/
def optional {α : Type} (read : List Char → Option α) (cs : List Char) : Option (Option α) :=
  match Json.parse (String.ofList cs) with
  | some .null => some none
  | _ => (read cs).map some

/-- Writes nothing as `null`. -/
def orNull {α : Type} (write : α → Value) : Option α → Value
  | none => .null
  | some a => write a

end OptionsJson

namespace ResolverOptions

open OptionsJson

/-- The options that a text, standing inside `depth` containers, writes. -/
def read (depth : Nat) (cs : List Char) : Option ResolverOptions := do
  let r ← Json.Record.read cs
  guard (r.fits 2)
  let globals ← r.get ["globals"] 0 [] (document (depth + 1))
  let processEnv ← r.get ["processEnv"] 1 true flag
  return ⟨globals, processEnv⟩

/-- The options that a JSON text writes. -/
def ofJson? (json : String) : Option ResolverOptions := read 0 json.toList

/-- The options as a value. -/
def toValue (o : ResolverOptions) : Value :=
  .mapping [("globals", .mapping o.globals), ("processEnv", .bool o.processEnv)]

end ResolverOptions

namespace LoaderOptions

open OptionsJson

/-- The options that a JSON text writes. -/
def ofJson? (json : String) : Option LoaderOptions := do
  let r ← Json.Record.read json.toList
  guard (r.fits 5)
  let environment ← r.get ["environment", "env"] 0 none (optional text)
  let data ← r.get ["data", "extraData"] 1 [] (document 1)
  let importsKey ← r.get ["importsKey"] 2 defaultImportsKey text
  let resolverOptions ← r.get ["resolverOptions"] 3 {} (ResolverOptions.read 1)
  let flattenOutput ← r.get ["flattenOutput"] 4 false flag
  return ⟨environment, data, importsKey, resolverOptions, flattenOutput⟩

/-- The options as a value. -/
def toValue (o : LoaderOptions) : Value :=
  .mapping [("environment", orNull .string o.environment), ("data", .mapping o.data),
    ("importsKey", .string o.importsKey), ("resolverOptions", o.resolverOptions.toValue),
    ("flattenOutput", .bool o.flattenOutput)]

end LoaderOptions

namespace LoadOptions

open OptionsJson

/-- The options that a JSON text writes. -/
def ofJson? (json : String) : Option LoadOptions := do
  let r ← Json.Record.read json.toList
  guard (r.fits 4)
  let environment ← r.get ["environment", "env"] 0 none (optional text)
  let data ← r.get ["data", "extraData"] 1 none (optional (document 1))
  let importsKey ← r.get ["importsKey"] 2 none (optional text)
  let flattenOutput ← r.get ["flattenOutput"] 3 none (optional flag)
  return ⟨environment, data, importsKey, flattenOutput⟩

/-- The options as a value. -/
def toValue (o : LoadOptions) : Value :=
  .mapping [("environment", orNull .string o.environment), ("data", orNull .mapping o.data),
    ("importsKey", orNull .string o.importsKey), ("flattenOutput", orNull .bool o.flattenOutput)]

end LoadOptions

end ConfigTree
