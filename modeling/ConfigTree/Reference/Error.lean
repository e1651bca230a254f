/-!
# Why a reference cannot be resolved

Each cause is a constructor of `ReferenceError`. All but a cycle name the placeholder by the text
it was written with.
-/

namespace ConfigTree

/-- A kind of value that has no place inside a longer text. -/
inductive ContainerKind where
  /-- A sequence. -/
  | sequence
  /-- A mapping. -/
  | mapping
deriving DecidableEq, Repr

/-- The kind in words. -/
def ContainerKind.words : ContainerKind → String
  | .sequence => "a sequence"
  | .mapping => "a mapping"

/-- A reference that could not be resolved. -/
inductive ReferenceError where
  /-- The placeholder or the path in it breaks its grammar. -/
  | malformed (placeholder : String) (reason : String)
  /-- Nothing stands where the placeholder points, and it has no fallback. -/
  | notFound (placeholder : String)
  /-- The namespace of the placeholder is not known. -/
  | unknownNamespace (placeholder : String) (name : String)
  /-- The placeholder is part of a longer text but points to a container. -/
  | notInterpolatable (placeholder : String) (kind : ContainerKind)
  /-- The paths lead back to one that is still being resolved. -/
  | cycle (chain : List String)
deriving DecidableEq, Repr

/-- The wording of a reference error. -/
def ReferenceError.message : ReferenceError → String
  | malformed placeholder reason => "Malformed reference '" ++ placeholder ++ "': " ++ reason
  | notFound placeholder => "Unresolved reference '" ++ placeholder ++ "'"
  | unknownNamespace placeholder name =>
    "Unknown namespace '" ++ name ++ "' in reference '" ++ placeholder ++ "'"
  | notInterpolatable placeholder kind =>
    "Reference '" ++ placeholder ++ "' points to " ++ kind.words
      ++ " and cannot be embedded in a string"
  | cycle chain => "Reference cycle: " ++ " -> ".intercalate chain

end ConfigTree
