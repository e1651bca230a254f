/-!
# Places in a YAML text

YAML gives meaning to lines and columns, so a place in a text knows both.

## The model

A `Cursor` is what is left of the text, with the number of characters, lines and columns before it.
Looking beyond the end of the text gives the null character, which cannot stand in a YAML text. A
carriage return followed by a line feed is one line break, and so are either alone, the next-line
character and the two separator characters; all but the separators are read as a line feed.
-/

namespace ConfigTree.Yaml

/-- Whether a character may stand in a YAML text: tabs, line breaks and what can be printed. -/
def isAllowed (c : Char) : Bool :=
  let n := c.toNat
  n == 0x9 || n == 0xA || n == 0xD || (0x20 ≤ n && n ≤ 0x7E) || n == 0x85 ||
    (0xA0 ≤ n && n ≤ 0xD7FF) || (0xE000 ≤ n && n ≤ 0xFFFD) || 0x10000 ≤ n

/-- What looking beyond the end gives. -/
def endMark : Char := '\x00'

/-- A space or a tab. -/
def isBlank (c : Char) : Bool := c == ' ' || c == '\t'

/-- A character that ends a line. -/
def isBreak (c : Char) : Bool :=
  c == '\n' || c == '\r' || c == '\u0085' || c == '\u2028' || c == '\u2029'

/-- A line break or the end of the text. -/
def isBreakOrEnd (c : Char) : Bool := isBreak c || c == endMark

/-- A blank, a line break or the end of the text. -/
def isGap (c : Char) : Bool := isBlank c || isBreakOrEnd c

/-- An ASCII letter or digit, an underscore or a minus sign. -/
def isWord (c : Char) : Bool := c.isAlphanum || c == '_' || c == '-'

/-- A place in a text. -/
structure Cursor where
  /-- The text from here on. -/
  rest : List Char
  /-- The number of characters before. -/
  index : Nat := 0
  /-- The number of lines before. -/
  line : Nat := 0
  /-- The number of characters before on the same line. -/
  column : Nat := 0

namespace Cursor

/-- The character that stands `n` places further. -/
def peek (c : Cursor) (n : Nat) : Char := c.rest.getD n endMark

/-- The character here. -/
def head (c : Cursor) : Char := c.rest.headD endMark

/-- The place `n` characters further on the same line. -/
def skip (c : Cursor) (n : Nat) : Cursor :=
  { c with rest := c.rest.drop n, index := c.index + n, column := c.column + n }

/-- The characters from here on that satisfy a test, and the place after them. -/
def takeWhile (c : Cursor) (p : Char → Bool) : List Char × Cursor :=
  let taken := c.rest.takeWhile p
  (taken, c.skip taken.length)

/-- The place after the characters that satisfy a test. -/
def skipWhile (c : Cursor) (p : Char → Bool) : Cursor := (c.takeWhile p).2

/-- The line break here as it is read, and the place after it; nothing happens without one. -/
def takeBreak (c : Cursor) : List Char × Cursor :=
  let next (n : Nat) : Cursor :=
    { rest := c.rest.drop n, index := c.index + n, line := c.line + 1, column := 0 }
  match c.rest with
  | '\r' :: '\n' :: _ => (['\n'], next 2)
  | b :: _ =>
    if b = '\u2028' ∨ b = '\u2029' then ([b], next 1)
    else if isBreak b then (['\n'], next 1)
    else ([], c)
  | [] => ([], c)

/-- The place after the line break here. -/
def skipBreak (c : Cursor) : Cursor := c.takeBreak.2

/-- Whether a line that begins here begins with three times the character and a gap. -/
def atMarker (c : Cursor) (mark : Char) : Bool :=
  c.column == 0 && c.peek 0 == mark && c.peek 1 == mark && c.peek 2 == mark && isGap (c.peek 3)

/-- Whether a document begins or ends here. -/
def atDocumentMarker (c : Cursor) : Bool := c.atMarker '-' || c.atMarker '.'

/-- The place after the blanks and a comment. A comment lasts to the end of its line. -/
def skipComment (c : Cursor) : Cursor :=
  let c := c.skipWhile isBlank
  if c.head = '#' then c.skipWhile (!isBreakOrEnd ·) else c

end Cursor

end ConfigTree.Yaml
