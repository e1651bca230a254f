/-!
# Reading an index

An index into a sequence is written in decimal: one leading plus sign is allowed, then at least one
ASCII digit, and the value has to fit into sixty-four bits.
-/

namespace ConfigTree.Text

/-- Indices lie below this bound. -/
def indexBound : Nat := Nat.pow 2 64

/-- The number that a list of digits writes, to the base ten. -/
def decimalValue (ds : List Char) : Nat :=
  ds.foldl (fun n d => 10 * n + (d.toNat - '0'.toNat)) 0

/-- The characters after one leading plus sign, if there is one. -/
def dropPlus : List Char → List Char
  | '+' :: cs => cs
  | cs => cs

/-- The index that the characters write, if they write one. -/
def readIndex? (cs : List Char) : Option Nat :=
  let ds := dropPlus cs
  if ds ≠ [] ∧ ds.all Char.isDigit ∧ decimalValue ds < indexBound then some (decimalValue ds)
  else none

end ConfigTree.Text
