import ConfigTree.Path.Segment

/-!
# What can be wrong with a path

A path text may break the grammar of paths, and a path may lead where nothing can be written. Each
cause is a constructor of `Path.Fault`; its wording is `Path.Fault.message`.
-/

namespace ConfigTree

namespace Path

/-- A cause for which a path text is refused or a value cannot be written. -/
inductive Fault where
  /-- The text is empty. -/
  | emptyPath
  /-- A dot stands where a segment has to begin. -/
  | emptySegment
  /-- A bracket opens directly after a dot. -/
  | bracketAfterDot
  /-- A bracket closes that was not opened. -/
  | unexpectedClose
  /-- A key follows a bracket without a dot between them. -/
  | missingDot
  /-- The text ends with a dot. -/
  | trailingDot
  /-- The text ends inside a quoted key. -/
  | unterminatedQuote
  /-- A quoted key is not followed by a closing bracket. -/
  | missingClose
  /-- The text ends inside brackets. -/
  | unterminatedBracket
  /-- What stands in the brackets is neither quoted nor an index. -/
  | notAnIndex (text : String)
  /-- The value on the way has no place for this segment. -/
  | blocked (segment : Segment)
  /-- The value at the end of the way has no place for the last segment. -/
  | notAContainer
  /-- The path has no segment, and a document cannot be replaced as a whole. -/
  | documentRoot
deriving DecidableEq, Repr

/-- The wording of a fault. -/
def Fault.message : Fault → String
  | emptyPath => "path is empty"
  | emptySegment => "empty segment"
  | bracketAfterDot => "empty segment before '['"
  | unexpectedClose => "unexpected ']'"
  | missingDot => "expected '.' or '[' after ']'"
  | trailingDot => "trailing '.'"
  | unterminatedQuote => "unterminated quoted key"
  | missingClose => "expected ']' after quoted key"
  | unterminatedBracket => "unterminated '['"
  | notAnIndex text => "'" ++ text ++ "' is not an index"
  | blocked segment => "cannot descend into '" ++ render [segment] ++ "'"
  | notAContainer => "target is not a container for this segment"
  | documentRoot => "cannot replace the document root"

end Path

/-- A path that was refused: its text and the cause. -/
structure PathError where
  /-- The text of the path. -/
  path : String
  /-- What is wrong with it. -/
  fault : Path.Fault
deriving DecidableEq, Repr

/-- The wording of a path error. -/
def PathError.message (e : PathError) : String :=
  "invalid path '" ++ e.path ++ "': " ++ e.fault.message

end ConfigTree
