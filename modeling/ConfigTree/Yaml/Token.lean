/-!
# Tokens of a YAML text

A YAML text is a row of tokens. Some of them stand in the text as they are: markers, brackets,
names of anchors, tags and scalars. Others show what the indentation means: where block sequences
and block mappings begin and end, and where a key begins.
-/

namespace ConfigTree.Yaml

/-- A token. -/
inductive Token where
  /-- Three minus signs at the beginning of a line. -/
  | documentStart
  /-- Three dots at the beginning of a line. -/
  | documentEnd
  /-- The version directive. -/
  | version (major minor : Nat)
  /-- A tag directive: what a handle stands for. -/
  | tagHandle (handle expansion : List Char)
  /-- A block sequence begins. -/
  | blockSequenceStart
  /-- A block mapping begins. -/
  | blockMappingStart
  /-- A block collection ends. -/
  | blockEnd
  /-- An opening bracket. -/
  | flowSequenceStart
  /-- A closing bracket. -/
  | flowSequenceEnd
  /-- An opening brace. -/
  | flowMappingStart
  /-- A closing brace. -/
  | flowMappingEnd
  /-- The minus sign before an item. -/
  | blockEntry
  /-- A comma. -/
  | flowEntry
  /-- A key begins. -/
  | key
  /-- A value begins. -/
  | value
  /-- A place that repeats an anchored node. -/
  | alias (name : List Char)
  /-- The name of the node that follows. -/
  | anchor (name : List Char)
  /-- The tag of the node that follows, as handle and suffix. -/
  | tag (handle suffix : List Char)
  /-- A scalar, and whether it is plain: neither quoted nor a block. -/
  | scalar (text : List Char) (plain : Bool)
deriving DecidableEq, Repr

end ConfigTree.Yaml
