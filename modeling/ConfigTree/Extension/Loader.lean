import ConfigTree.Extension.FileError
import ConfigTree.Json.Reader
import ConfigTree.Text.Blank
import ConfigTree.Yaml.Reader

/-!
# Loaders for single files

A loader turns the file that a path names into a document. There is one for JSON and one for YAML; a
caller can bring others. At the top of a file stands a mapping; a file that holds just `null` is
the empty document, and so is a YAML file with nothing but blanks.
-/

namespace ConfigTree

/-- Something that turns a path into a document. -/
structure ExtensionLoader where
  /-- A short name that tells loaders apart. -/
  name : String := "custom"
  /-- The document of the file that a path names. -/
  load : World → String → Except FileError Document

namespace ExtensionLoader

/-- The value at the top of a file as a document. -/
def document (path : String) : Value → Except FileError Document
  | .mapping es => .ok es
  | .null => .ok []
  | v => .error (.notAMapping path v.kindWords)

/-- The loader for JSON. -/
def json : ExtensionLoader where
  name := "json"
  load w path :=
    match w.readText path with
    | .error e => .error (.read path e)
    | .ok text =>
      match Json.parse text with
      | some v => document path v
      | none => .error (.json path)

/-- The loader for YAML. -/
def yaml : ExtensionLoader where
  name := "yaml"
  load w path :=
    match w.readText path with
    | .error e => .error (.read path e)
    | .ok text =>
      if Text.trimBoth text.toList = [] then .ok []
      else
        match Yaml.parse text with
        | some v => document path v
        | none => .error (.yaml path)

/-- The loader that a plain function of the path makes. -/
def ofFunction (f : String → Except FileError Document) : ExtensionLoader where
  name := "fn"
  load _ path := f path

end ExtensionLoader

end ConfigTree
