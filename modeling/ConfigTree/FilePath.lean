/-!
# File paths

Files are named by texts in which slashes separate names. Two different texts can name the same
place: slashes may be repeated or trail, a name `.` means nothing, and `..` leads back. Loading
files goes by the normalised path, which has one spelling for each place: it begins at the root,
and none of these occur in it.

## The model

A path text is cut at its slashes into pieces. Reading the names of a path ignores empty pieces and
dots; `normalize` walks along the names and steps back at `..`, staying at the root when there is
nothing to step back from. Nothing here looks at files: the meaning of `..` is that of the text.
Replacing the last name of a path leaves the text before that name as it was written.
-/

namespace ConfigTree.FilePath

/-- The pieces of a text between its slashes; there is always at least one. -/
def pieces : List Char → List (List Char)
  | [] => [[]]
  | c :: cs =>
    if c = '/' then [] :: pieces cs
    else
      match pieces cs with
      | [] => [[c]]
      | p :: ps => (c :: p) :: ps

/-- The pieces with slashes between them. -/
def joinPieces : List (List Char) → List Char
  | [] => []
  | [p] => p
  | p :: q :: ps => p ++ '/' :: joinPieces (q :: ps)

/-- Whether a piece names nothing. -/
def isIdle (piece : List Char) : Bool := piece == [] || piece == ['.']

/-- The names of a path, `..` among them. -/
def names (path : List Char) : List (List Char) := (pieces path).filter fun p => !isIdle p

/-- Whether a path begins at the root. -/
def isAbsolute (path : List Char) : Bool := path.head? == some '/'

/-- The step back. -/
def parentName : List Char := ['.', '.']

/-- The names walked along, the last one first, after one more step; a step back from the root stays
there. -/
def step (walked : List (List Char)) (name : List Char) : List (List Char) :=
  if name = parentName then walked.tail else name :: walked

/-- The text of the place that names lead to from the root. -/
def ofNames (ns : List (List Char)) : List Char := '/' :: joinPieces ns

/-- The normalised characters of a path that is read in a working directory. -/
def normalizeChars (cwd path : List Char) : List Char :=
  if path = [] then []
  else
    let start := if isAbsolute path then [] else names cwd
    ofNames ((start ++ names path).foldl step []).reverse

/-- The normalised path; the empty path stays empty. -/
def normalize (cwd path : String) : String :=
  String.ofList (normalizeChars cwd.toList path.toList)

/-- The second path read in the directory that the first one names. -/
def joinChars (base path : List Char) : List Char :=
  if isAbsolute path then path
  else if base = [] then path
  else if base.getLast? = some '/' then base ++ path
  else base ++ '/' :: path

/-- The second path read in the directory that the first one names. -/
def join (base path : String) : String := String.ofList (joinChars base.toList path.toList)

/-- The pieces of a path that may be dropped from its end: all but the root, and but a dot that
the path begins with. -/
def bodyOf (path : List Char) : List (List Char) × List (List Char) :=
  match pieces path with
  | [] :: p :: ps => ([[]], p :: ps)
  | ['.'] :: ps => ([['.']], ps)
  | ps => ([], ps)

/-- The pieces without the idle ones that stand last. -/
def dropIdle (ps : List (List Char)) : List (List Char) := (ps.reverse.dropWhile isIdle).reverse

/-- The last name of a path; none when the path ends with a step back or has no names. -/
def fileNameChars (path : List Char) : Option (List Char) :=
  match (bodyOf path).2.filter (fun p => !isIdle p) |>.getLast? with
  | some name => if name = parentName then none else some name
  | none => none

/-- A name cut at its last dot, unless that dot comes first. -/
def splitAtLastDot (name : List Char) : List Char × Option (List Char) :=
  let after := (name.reverse.takeWhile (· ≠ '.')).reverse
  let before := name.take (name.length - after.length - 1)
  if after.length = name.length ∨ before = [] then (name, none) else (before, some after)

/-- The last name of a path without its extension; empty when there is no name. -/
def stemChars (path : List Char) : List Char :=
  match fileNameChars path with
  | some name => (splitAtLastDot name).1
  | none => []

/-- What follows the last dot of the last name. It can be empty, and it is missing when that name
has no dot but a first one. -/
def extensionChars (path : List Char) : Option (List Char) :=
  (fileNameChars path).bind fun name => (splitAtLastDot name).2

/-- The text of a path without its last name. -/
def parentChars (path : List Char) : List Char :=
  let (root, body) := bodyOf path
  let left := dropIdle (dropIdle body).dropLast
  match root, left with
  | [[]], [] => ['/']
  | root, left => joinPieces (root ++ left)

/-- The path with its last name replaced, or with a name put after it when it has none. -/
def withFileNameChars (path name : List Char) : List Char :=
  if (fileNameChars path).isSome then joinChars (parentChars path) name else joinChars path name

/-- The directory of a path. -/
def directory (path : String) : String := String.ofList (parentChars path.toList)

/-- The last name of a path, if it has one. -/
def fileName? (path : String) : Option String :=
  (fileNameChars path.toList).map String.ofList

end ConfigTree.FilePath
