import ConfigTree.Loader.Load
import ConfigTree.Text.Visible

/-!
# Describing a loader

For someone who looks for a fault, a loader can be described in one line: its options, field by
field, and the loaders it has for extensions. Values are described by their kinds.

A described text stands between double quotes. Quotes, backslashes and the usual control characters
are escaped by a letter, and every other character that cannot be seen by its number in hexadecimal
digits, in braces.
-/

namespace ConfigTree.Describe

/-- A character as it stands inside a described text. -/
def character (c : Char) : List Char :=
  if c = '"' then ['\\', '"']
  else if c = '\\' then ['\\', '\\']
  else if c = '\n' then ['\\', 'n']
  else if c = '\r' then ['\\', 'r']
  else if c = '\t' then ['\\', 't']
  else if c = '\x00' then ['\\', '0']
  else if Text.isVisible c then [c]
  else '\\' :: 'u' :: '\x7b' :: (Nat.toDigits 16 c.toNat ++ ['\x7d'])

/-- A text between quotes. -/
def text (s : String) : String :=
  String.ofList ('"' :: (s.toList.flatMap character ++ ['"']))

/-- Descriptions between braces. -/
def braced (parts : List String) : String := "\x7b" ++ ", ".intercalate parts ++ "\x7d"

/-- The description of a record: its name, and its fields between braces. -/
def record (name : String) (fields : List String) : String :=
  name ++ " \x7b " ++ ", ".intercalate fields ++ " \x7d"

/-- The word of a truth value. -/
def flag (b : Bool) : String := if b then "true" else "false"

mutual

/-- The description of a value. -/
def value : Value → String
  | .null => "Null"
  | .bool b => "Bool(" ++ flag b ++ ")"
  | .number n => "Number(" ++ n.text ++ ")"
  | .string s => "String(" ++ text s ++ ")"
  | .sequence items => "Array [" ++ ", ".intercalate (valuesOfItems items) ++ "]"
  | .mapping entries => "Object " ++ braced (valuesOfEntries entries)

/-- The descriptions of items. -/
def valuesOfItems : List Value → List String
  | [] => []
  | v :: vs => value v :: valuesOfItems vs

/-- The descriptions of entries. -/
def valuesOfEntries : List (String × Value) → List String
  | [] => []
  | (k, v) :: es => (text k ++ ": " ++ value v) :: valuesOfEntries es

end

/-- The description of a document. -/
def document (d : Document) : String := braced (valuesOfEntries d)

/-- The description of a text that may be missing. -/
def optionalText : Option String → String
  | some s => "Some(" ++ text s ++ ")"
  | none => "None"

/-- The description of the options of the resolver of placeholders. -/
def resolverOptions (o : ResolverOptions) : String :=
  record "ResolverOptions" ["globals: " ++ document o.globals, "process_env: " ++ flag o.processEnv]

/-- The description of the options of a loader. -/
def loaderOptions (o : LoaderOptions) : String :=
  record "LoaderOptions"
    ["environment: " ++ optionalText o.environment, "data: " ++ document o.data,
      "imports_key: " ++ text o.importsKey,
      "resolver_options: " ++ resolverOptions o.resolverOptions,
      "flatten_output: " ++ flag o.flattenOutput]

/-- The description of a registry: each extension with the name of its loader. -/
def registry (r : Registry) : String :=
  braced (r.entries.map fun e => text e.1 ++ ": " ++ text e.2.name)

/-- The description of a loader; its resolver is left out. -/
def loader (l : Loader) : String :=
  record "Loader" ["options: " ++ loaderOptions l.options, "registry: " ++ registry l.registry, ".."]

end ConfigTree.Describe
