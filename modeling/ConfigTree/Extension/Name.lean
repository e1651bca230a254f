import ConfigTree.FilePath
import ConfigTree.Text.Blank

/-!
# Extensions

A file is read by the loader that is registered for its extension. Extensions are compared in
normal form: without blanks around them, with one dot in front, ASCII letters in lower case. A file
without an extension has the empty one.

An environment file stands beside a file under the same extension: its stem is that of the file, an
underscore and the name of the environment.
-/

namespace ConfigTree.Extension

/-- The text with its ASCII letters in lower case. -/
def lower (cs : List Char) : List Char := cs.map Char.toLower

/-- The normal form of an extension. -/
def normalizeChars (cs : List Char) : List Char :=
  match (Text.trimBoth cs).dropWhile (· == '.') with
  | [] => []
  | c :: rest => '.' :: lower (c :: rest)

/-- The normal form of an extension. -/
def normalize (s : String) : String := String.ofList (normalizeChars s.toList)

/-- The extension of a file, in normal form. -/
def ofPath (path : String) : String :=
  match FilePath.extensionChars path.toList with
  | some e => String.ofList (normalizeChars e)
  | none => ""

/-- What stands between the stem of a file and the name of an environment. -/
def environmentSeparator : Char := '_'

/-- The name of the environment file beside a file. -/
def siblingName (path environment : List Char) : List Char :=
  FilePath.stemChars path ++ environmentSeparator :: environment ++
    match FilePath.extensionChars path with
    | some e => '.' :: e
    | none => []

/-- The path of the environment file beside a file. -/
def sibling (path environment : String) : String :=
  String.ofList
    (FilePath.withFileNameChars path.toList (siblingName path.toList environment.toList))

end ConfigTree.Extension
