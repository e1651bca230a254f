import ConfigTree.Yaml.Document
import ConfigTree.Yaml.Literal

/-!
# Reading YAML

A YAML text holds at most one document, and its nodes are values: scalars, sequences and mappings
whose keys are scalars.

## The model

`Yaml.ofNode?` takes a node to a value. A key is the text of its scalar, whatever its kind and tag;
of a repeated key the first place and the last value count. Where an anchored node is repeated, its
value is repeated. There are limits on how deep collections nest and on how often nodes are
repeated, so that a node that repeats itself is at fault, and so is a short text for a huge value.
-/

namespace ConfigTree.Yaml

/-- Collections nest at most this deep. -/
def depthLimit : Nat := 128

/-- Nodes may be repeated this often for each place in the text of the document. -/
def repeatLimit : Nat := 100

/-- A computation that counts how often nodes are repeated. -/
abbrev Counted (α : Type) : Type := StateT Nat Option α

/-- What is known of a document while its nodes are read. -/
structure Anchors where
  /-- The anchored nodes, the last one first. -/
  nodes : List (Nat × Node)
  /-- How often nodes may be repeated. -/
  limit : Nat

namespace Anchors

/-- The anchors of a document. -/
def ofDocument (n : Node) : Anchors := ⟨n.anchored.reverse, repeatLimit * n.size⟩

/-- The node itself, or the one that it repeats. -/
def resolve (a : Anchors) : Node → Counted Node
  | .alias anchor => do
    let count := (← get) + 1
    if a.limit < count then failure
    else
      set count
      match a.nodes.lookup anchor with
      | some n => return n
      | none => failure
  | n => return n

/-- The key that a node writes. -/
def key (a : Anchors) (n : Node) : Counted String := do
  match ← a.resolve n with
  | .scalar _ text _ => return String.ofList text
  | _ => failure

/-- Whether the text defines the tag for itself. -/
def isLocal (props : Properties) : Bool := props.tag.any (·.head? == some '!')

/-- The value of a node whose inner nodes are read by `inner`; at the greatest depth there is no
`inner`, and no collection may stand there. -/
def valueWith (a : Anchors) (inner : Option (Node → Counted Value)) (n : Node) : Counted Value := do
  match ← a.resolve n, inner with
  | .scalar props text plain, _ => (Literal.value? props.tag text plain : Option Value)
  | .sequence props items, some inner =>
    if isLocal props then failure else return .sequence (← items.mapM inner)
  | .mapping props entries, some inner =>
    if isLocal props then failure
    else
      let entries ← entries.mapM fun (k, v) => do return (← a.key k, ← inner v)
      return .mapping (Entries.ofList entries)
  | _, _ => failure

/-- The value of a node in which collections nest at most so deep. -/
def value (a : Anchors) : Nat → Node → Counted Value
  | 0 => a.valueWith none
  | depth + 1 => a.valueWith (some (value a depth))

end Anchors

/-- The value of the node at the top of a document. -/
def ofNode? (n : Node) : Option Value := (Anchors.value (.ofDocument n) depthLimit n).run' 0

/-- The value that a text writes; without a document it is null. -/
def parse (text : String) : Option Value :=
  match (Layout.tokens? text.toList).bind Node.ofTokens? with
  | none => none
  | some none => some .null
  | some (some n) => ofNode? n

end ConfigTree.Yaml
