import ConfigTree.Environment
import ConfigTree.FilePath

/-!
# The world that files are loaded from

Loading reads three things: the files, the working directory and the environment. All three are
values here, so that a load is a function of them.

## The model

The files are listed by their normalised paths, directories among them. A path that is handed to the
system is followed name by name, as the system does it: each place on the way has to exist and to be
a directory, a name has at most two hundred and fifty-five bytes, and a path less than four thousand
and ninety-six. There are no links.
-/

namespace ConfigTree

/-- What a path can name. -/
inductive Node where
  /-- A directory. -/
  | directory
  /-- A file with its bytes. -/
  | file (bytes : ByteArray)

/-- Why the system refuses to open or read. -/
inductive OsError where
  /-- Nothing is there. -/
  | notFound
  /-- Something on the way is not a directory. -/
  | notADirectory
  /-- A directory cannot be read as a file. -/
  | isADirectory
  /-- A name or the path is too long. -/
  | nameTooLong
  /-- The path holds the null character. -/
  | nullInPath
  /-- The bytes of the file are not a text. -/
  | notText
deriving DecidableEq, Repr

/-- The wording of a refusal. -/
def OsError.message : OsError → String
  | notFound => "No such file or directory (os error 2)"
  | notADirectory => "Not a directory (os error 20)"
  | isADirectory => "Is a directory (os error 21)"
  | nameTooLong => "File name too long (os error 36)"
  | nullInPath => "file name contained an unexpected NUL byte"
  | notText => "stream did not contain valid UTF-8"

/-- The files, the working directory and the environment. -/
structure World where
  /-- What exists, by normalised paths. -/
  nodes : Entries Node := []
  /-- The working directory, a normalised path. -/
  cwd : String := "/"
  /-- The process environment. -/
  env : Environment := []

namespace World

/-- Names have at most this many bytes. -/
def nameLimit : Nat := 255

/-- Paths have fewer bytes than this. -/
def pathLimit : Nat := 4096

/-- What stands at the place that names lead to from the root. The root is a directory. -/
def nodeAt (w : World) (ns : List (List Char)) : Option Node :=
  if ns = [] then some .directory
  else Entries.get? w.nodes (String.ofList (FilePath.ofNames ns))

/-- Follows pieces of a path from a place that names lead to. -/
def follow (w : World) (here : List (List Char)) : List (List Char) → Except OsError Node
  | [] =>
    match w.nodeAt here with
    | some node => .ok node
    | none => .error .notFound
  | piece :: rest =>
    match w.nodeAt here with
    | none => .error .notFound
    | some (.file _) => .error .notADirectory
    | some .directory =>
      if piece = ['.'] then w.follow here rest
      else if piece = FilePath.parentName then w.follow here.dropLast rest
      else if nameLimit < (String.ofList piece).utf8ByteSize then .error .nameTooLong
      else w.follow (here ++ [piece]) rest

/-- What a path names. -/
def lookup (w : World) (path : String) : Except OsError Node :=
  let cs := path.toList
  if cs = [] then .error .notFound
  else if cs.contains '\x00' then .error .nullInPath
  else if pathLimit ≤ path.utf8ByteSize then .error .nameTooLong
  else
    let start := if FilePath.isAbsolute cs then [] else FilePath.names w.cwd.toList
    let ps := (FilePath.pieces cs).filter (· ≠ [])
    let ps := if cs.getLast? = some '/' then ps ++ [['.']] else ps
    w.follow start ps

/-- The bytes of the file that a path names. -/
def readBytes (w : World) (path : String) : Except OsError ByteArray :=
  match w.lookup path with
  | .ok (.file bytes) => .ok bytes
  | .ok .directory => .error .isADirectory
  | .error e => .error e

/-- The text of the file that a path names. -/
def readText (w : World) (path : String) : Except OsError String :=
  match w.readBytes path with
  | .ok bytes =>
    match String.fromUTF8? bytes with
    | some text => .ok text
    | none => .error .notText
  | .error e => .error e

/-- Whether a path names something; anything but its absence that hides the answer is an error. -/
def exists? (w : World) (path : String) : Except OsError Bool :=
  match w.lookup path with
  | .ok _ => .ok true
  | .error .notFound => .ok false
  | .error e => .error e

/-- The world with the directories that lead along names, from those that lead to `here` on. -/
def makeDirectories (w : World) (here : List (List Char)) : List (List Char) → World
  | [] => w
  | name :: rest =>
    let next := here ++ [name]
    let w := { w with nodes := Entries.insert w.nodes (String.ofList (FilePath.ofNames next)) .directory }
    w.makeDirectories next rest

/-- The world with a node put at a path, and the directories above it made. -/
def put (w : World) (path : String) (node : Node) : World :=
  let ns := FilePath.names path.toList
  let w := w.makeDirectories [] ns.dropLast
  { w with nodes := Entries.insert w.nodes (String.ofList (FilePath.ofNames ns)) node }

/-- The world without what stands at a path. -/
def delete (w : World) (path : String) : World :=
  { w with nodes := Entries.erase w.nodes (FilePath.normalize w.cwd path) }

/-- The number of files. -/
def fileCount (w : World) : Nat :=
  (w.nodes.filter fun e => match e.2 with
    | .file _ => true
    | .directory => false).length

end World

end ConfigTree
