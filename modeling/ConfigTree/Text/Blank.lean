/-!
# Blank characters

Names, extensions, references and environment variables are trimmed before they are used. What is
trimmed is a run of *blank* characters, and a character is blank when it has the Unicode property
`White_Space`. The property has twenty-five members, listed here as ten ranges.

## The model

Trimming is defined on lists of characters, where it is `dropWhile` at one end or at both, and is
carried over to `String`.
-/

namespace ConfigTree.Text

/-- The ranges of code points, both ends included, that have the property `White_Space`. -/
def blankRanges : List (Nat × Nat) :=
  [(0x9, 0xD), (0x20, 0x20), (0x85, 0x85), (0xA0, 0xA0), (0x1680, 0x1680), (0x2000, 0x200A),
    (0x2028, 0x2029), (0x202F, 0x202F), (0x205F, 0x205F), (0x3000, 0x3000)]

/-- A blank character lies in one of `blankRanges`. -/
def isBlank (c : Char) : Bool :=
  blankRanges.any fun r => decide (r.1 ≤ c.toNat ∧ c.toNat ≤ r.2)

/-- The characters without the blank ones that stand first. -/
def trimLeft (cs : List Char) : List Char :=
  cs.dropWhile isBlank

/-- The characters without the blank ones that stand last. -/
def trimRight (cs : List Char) : List Char :=
  (cs.reverse.dropWhile isBlank).reverse

/-- The characters without the blank ones at either end. -/
def trimBoth (cs : List Char) : List Char :=
  trimRight (trimLeft cs)

/-- The text without the blank characters at either end. -/
def trim (s : String) : String :=
  String.ofList (trimBoth s.toList)

@[simp] theorem trimLeft_nil : trimLeft [] = [] := rfl

theorem trimLeft_cons (c : Char) (cs : List Char) :
    trimLeft (c :: cs) = if isBlank c then trimLeft cs else c :: cs := by
  simp [trimLeft, List.dropWhile_cons]

@[simp] theorem toList_trim (s : String) : (trim s).toList = trimBoth s.toList := by
  simp [trim]

end ConfigTree.Text
