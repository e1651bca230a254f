import ConfigTree.Text.Index

/-!
# Segments of a path and their canonical text

A path leads from the top of a tree to a place in it, one segment a step: a key of a mapping or an
index of a sequence. Every path has one canonical text. Indices stand in brackets. A key stands as
it is, after a dot unless it comes first; a key that is empty or holds a dot or a bracket stands in
brackets and double quotes, with a backslash before each quote and backslash in it.

## The model

Paths are lists of segments, and their text is built as a list of characters from the front, so
that the only thing to remember is whether something was written before.
-/

namespace ConfigTree

/-- One step of a path. -/
inductive Segment where
  /-- The value of a key. -/
  | key (name : String)
  /-- The item at a position, counted from zero. -/
  | index (i : Nat)
deriving DecidableEq, Repr

namespace Segment

/-- The key that a segment stands for at the top of a document, where an index is read as its
decimal text. -/
def documentKey : Segment → String
  | key name => name
  | index i => toString i

end Segment

/-- The steps from the top of a tree to a place in it. -/
abbrev Path := List Segment

namespace Path

/-- The characters that end a key written without quotes. -/
def isDelimiter (c : Char) : Bool := c == '.' || c == '[' || c == ']'

/-- Whether a key has to be written in quotes. -/
def needsQuotes (name : List Char) : Bool := name.isEmpty || name.any isDelimiter

/-- The characters of a quoted key: a backslash stands before each quote and each backslash. -/
def escape : List Char → List Char
  | [] => []
  | c :: cs => if c = '"' ∨ c = '\\' then '\\' :: c :: escape cs else c :: escape cs

/-- The text of one segment; `first` tells whether nothing was written before it. -/
def renderSegment (first : Bool) : Segment → List Char
  | .index i => '[' :: (Nat.toDigits 10 i ++ [']'])
  | .key name =>
    if needsQuotes name.toList then '[' :: '"' :: (escape name.toList ++ ['"', ']'])
    else if first then name.toList
    else '.' :: name.toList

/-- The text of the segments that follow others, or of all when `first`. -/
def renderFrom : Bool → Path → List Char
  | _, [] => []
  | first, s :: rest => renderSegment first s ++ renderFrom false rest

/-- The canonical text of a path. -/
def render (p : Path) : String := String.ofList (renderFrom true p)

end Path

end ConfigTree
