/-!
# Nodes of a YAML document

A YAML document is a tree of nodes: scalars, sequences and mappings, each perhaps with a name under
which it can be repeated, its anchor, and with a tag that says what kind of thing it is.

## The model

`Node` is the tree as it stands in the text: a place that repeats an anchored node is a node of its
own, `alias`. Anchors are numbers, and a number stands for the last node that carries it.
-/

namespace ConfigTree.Yaml

/-- What may stand in front of a node. -/
structure Properties where
  /-- The number under which the node can be repeated. -/
  anchor : Option Nat := none
  /-- The tag, with its handle expanded. -/
  tag : Option (List Char) := none
deriving DecidableEq, Repr

/-- A node of a document. -/
inductive Node where
  /-- The last node with this anchor, once more. -/
  | alias (anchor : Nat)
  /-- A scalar, and whether it is plain: neither quoted nor a block. -/
  | scalar (props : Properties) (text : List Char) (plain : Bool)
  /-- A sequence. -/
  | sequence (props : Properties) (items : List Node)
  /-- A mapping: its entries in order, keys and values. -/
  | mapping (props : Properties) (entries : List (Node × Node))
deriving Repr

namespace Node

/-- What stands where a node is left out. -/
def absent : Node := .scalar {} [] true

mutual

/-- The number of places in the text of a node: one for a scalar or an alias, and one for each end of
a collection. -/
def size : Node → Nat
  | .alias _ => 1
  | .scalar .. => 1
  | .sequence _ items => 2 + sizeItems items
  | .mapping _ entries => 2 + sizeEntries entries

/-- The number of places in the text of the items of a sequence. -/
def sizeItems : List Node → Nat
  | [] => 0
  | n :: ns => size n + sizeItems ns

/-- The number of places in the text of the entries of a mapping. -/
def sizeEntries : List (Node × Node) → Nat
  | [] => 0
  | (k, v) :: es => size k + size v + sizeEntries es

end

mutual

/-- The anchored nodes, in the order of the text. -/
def anchored : Node → List (Nat × Node)
  | .alias _ => []
  | n@(.scalar props _ _) => (props.anchor.map fun a => (a, n)).toList
  | n@(.sequence props items) => (props.anchor.map fun a => (a, n)).toList ++ anchoredItems items
  | n@(.mapping props entries) => (props.anchor.map fun a => (a, n)).toList ++ anchoredEntries entries

/-- The anchored nodes among the items of a sequence and in them. -/
def anchoredItems : List Node → List (Nat × Node)
  | [] => []
  | n :: ns => anchored n ++ anchoredItems ns

/-- The anchored nodes among the keys and values of a mapping and in them. -/
def anchoredEntries : List (Node × Node) → List (Nat × Node)
  | [] => []
  | (k, v) :: es => anchored k ++ anchored v ++ anchoredEntries es

end

end Node

end ConfigTree.Yaml
