import ConfigTree.Extension.FileError
import ConfigTree.Reference.Error

/-!
# Why loading fails

Every way in which a load, or the making of a loader, can fail is a constructor of `LoaderError`.
The faults of a `.env` file never quote it, so that nothing secret gets out.
-/

namespace ConfigTree

/-- A failure to load, or to make a loader. -/
inductive LoaderError where
  /-- No loader is registered for the extension of a file. -/
  | unregisteredExtension (extension : String) (path : String)
  /-- A file cannot be loaded. -/
  | load (path : String) (source : FileError)
  /-- The references of a file cannot be resolved. -/
  | reference (path : String) (source : ReferenceError)
  /-- A file imports itself through others. -/
  | cyclicImport (path : String) (chain : List String)
  /-- An entry of an import list is not a path. -/
  | invalidImport (path : String) (index : Nat)
  /-- An environment variable has a value that means nothing. -/
  | invalidValue (variableName : String) (reason : String)
  /-- A line of the `.env` file breaks its grammar at a position. -/
  | dotenvParse (position : Nat)
  /-- The `.env` file cannot be read. -/
  | dotenvRead (source : OsError)
deriving DecidableEq, Repr

/-- The kind of a refusal of the system, in words. -/
def OsError.kindWords : OsError → String
  | notFound => "entity not found"
  | notADirectory => "not a directory"
  | isADirectory => "is a directory"
  | nameTooLong => "invalid filename"
  | nullInPath => "invalid input parameter"
  | notText => "invalid data"

namespace LoaderError

/-- The wording of a failure. -/
def message : LoaderError → String
  | unregisteredExtension extension path =>
    "No extension loader registered for '" ++ extension ++ "' (file: " ++ path ++ ")"
  | load path source => "Failed to load " ++ path ++ ": " ++ source.message
  | reference path source => "Failed to resolve references in " ++ path ++ ": " ++ source.message
  | cyclicImport path chain =>
    "Import cycle detected at " ++ path ++ ": " ++ " -> ".intercalate chain
  | invalidImport path index =>
    "Import #" ++ toString index ++ " in " ++ path ++ " is not a file path string"
  | invalidValue variableName reason => "Invalid value for " ++ variableName ++ ": " ++ reason
  | dotenvParse position =>
    "Failed to parse .env file at position " ++ toString position
      ++ ". Hint: set DOTENV_DISABLED=1 to skip .env loading"
  | dotenvRead source => "Failed to read .env file: " ++ source.kindWords

/-- The wordings of a failure and of what caused it, the failure first. -/
def chain : LoaderError → List String
  | load path source => message (load path source) :: source.chain
  | reference path source => [message (reference path source), source.message]
  | e => [e.message]

/-- The file that a failure is about, if it is about one. -/
def path? : LoaderError → Option String
  | unregisteredExtension _ path | load path _ | reference path _ | cyclicImport path _
  | invalidImport path _ => some path
  | invalidValue _ _ | dotenvParse _ | dotenvRead _ => none

end LoaderError

end ConfigTree
