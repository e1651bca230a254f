import ConfigTree.Value
import ConfigTree.World

/-!
# Why a file cannot be loaded

A loader for one kind of file fails because the file cannot be read, because its text breaks the
format, or because its top is not a mapping. Loaders of a caller fail with a text of their own, and
the system can refuse to say whether a file exists.
-/

namespace ConfigTree

/-- The kind of a value that is not a document. -/
def Value.kindWords : Value → String
  | .null => "null"
  | .bool _ => "a boolean"
  | .number _ => "a number"
  | .string _ => "a string"
  | .sequence _ => "a sequence"
  | .mapping _ => "a mapping"

/-- A reason for which a single file is not loaded. -/
inductive FileError where
  /-- The file cannot be read. -/
  | read (path : String) (source : OsError)
  /-- The text is not JSON. -/
  | json (path : String)
  /-- The text is not YAML of the kind that is understood. -/
  | yaml (path : String)
  /-- The top of the file is not a mapping. -/
  | notAMapping (path : String) (kind : String)
  /-- The system does not say whether the file exists. -/
  | os (source : OsError)
  /-- A loader of the caller gave up. -/
  | custom (text : String)
deriving DecidableEq, Repr

namespace FileError

/-- The wording of a file error. What a format says about the place of a fault is not part of it. -/
def message : FileError → String
  | read path _ => "Failed to read " ++ path
  | json path => "Failed to parse JSON in " ++ path ++ ": "
  | yaml path => "Failed to parse YAML in " ++ path ++ ": "
  | notAMapping path kind =>
    "Top-level value in " ++ path ++ " is " ++ kind ++ ", expected a mapping"
  | os source => source.message
  | custom text => text

/-- The wordings of the error and of what caused it, the error first. -/
def chain : FileError → List String
  | read path source => [message (read path source), source.message]
  | e => [e.message]

end FileError

end ConfigTree
