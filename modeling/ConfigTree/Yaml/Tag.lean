import ConfigTree.Yaml.Scalar
import ConfigTree.Yaml.Token

/-!
# Tags, directives and anchors of a YAML text

A tag says what kind of thing a node is. It is a handle with a suffix, or a whole name in angle
brackets. A directive stands on a line of its own in front of a document: one tells the version,
others say what handles stand for. An anchor gives a node a name, and an alias uses it.

## The model

Each reader begins at the first character of its token and gives the token, or its parts, with the
place after it; nothing is given when the text is at fault.
-/

namespace ConfigTree.Yaml

namespace Tag

/-- Whether a character may stand in a tag as it is. -/
def isTagChar (verbatim : Bool) (c : Char) : Bool :=
  isWord c || [';', '/', '?', ':', '@', '&', '=', '+', '$', '.', '!', '~', '*', '\u0027', '(', ')'].contains c
    || (verbatim && (c == ',' || c == '[' || c == ']'))

/-- The byte that a percent sign and two hexadecimal digits write. -/
def escapedByte? (c : Cursor) : Option Nat :=
  if c.head = '%' then
    match Scalar.hexValue? (c.peek 1), Scalar.hexValue? (c.peek 2) with
    | some a, some b => some (16 * a + b)
    | _, _ => none
  else none

/-- The number of bytes of a character, told from the first of them. -/
def escapeWidth? (byte : Nat) : Option Nat :=
  if byte < 0x80 then some 1
  else if 0xC0 ≤ byte ∧ byte < 0xE0 then some 2
  else if 0xE0 ≤ byte ∧ byte < 0xF0 then some 3
  else if 0xF0 ≤ byte ∧ byte < 0xF8 then some 4
  else none

/-- The bytes after the first one of an escaped character, and the place after them. -/
def escapedTail : Nat → Cursor → Option (List Nat × Cursor)
  | 0, c => some ([], c)
  | n + 1, c =>
    match escapedByte? c with
    | none => none
    | some byte =>
      if 0x80 ≤ byte ∧ byte < 0xC0 then
        (escapedTail n (c.skip 3)).map fun r => (byte :: r.1, r.2)
      else none

/-- An escaped character as its bytes, and the place after it. -/
def escaped (c : Cursor) : Option (List Nat × Cursor) :=
  match escapedByte? c with
  | none => none
  | some byte =>
    match escapeWidth? byte with
    | none => none
    | some width => (escapedTail (width - 1) (c.skip 3)).map fun r => (byte :: r.1, r.2)

/-- The characters of a tag from here on, and the place after them. The bytes of an escape are kept
as they are: no tag that is known has any. -/
def body (verbatim : Bool) : Nat → Cursor → Option (List Char × Cursor)
  | 0, c => some ([], c)
  | fuel + 1, c =>
    if c.head = '%' then
      match escaped c with
      | none => none
      | some (bytes, c) => (body verbatim fuel c).map fun r => (bytes.map Char.ofNat ++ r.1, r.2)
    else if isTagChar verbatim c.head then
      (body verbatim fuel (c.skip 1)).map fun r => (c.head :: r.1, r.2)
    else some ([], c)

/-- The characters of a tag that follow `before`, of which there must be one in all. -/
def uri (verbatim : Bool) (before : List Char) (c : Cursor) : Option (List Char × Cursor) :=
  match body verbatim (c.rest.length + 1) c with
  | none => none
  | some (text, after) => if before = [] ∧ text = [] then none else some (before.drop 1 ++ text, after)

/-- The handle here: an exclamation mark, a word and perhaps another exclamation mark. -/
def handle (c : Cursor) : Option (List Char × Cursor) :=
  if c.head ≠ '!' then none
  else
    let (word, c) := (c.skip 1).takeWhile isWord
    if c.head = '!' then some ('!' :: (word ++ ['!']), c.skip 1) else some ('!' :: word, c)

/-- Whether the characters are a handle that has to be looked up. -/
def isHandle (h : List Char) : Bool := 1 < h.length && h.getLast? == some '!'

/-- The tag here, and the place after it. -/
def read (inFlow : Bool) (c : Cursor) : Option (Token × Cursor) :=
  let found : Option (Token × Cursor) :=
    if c.peek 1 = '<' then
      match uri true [] (c.skip 2) with
      | none => none
      | some (text, c) => if c.head = '>' then some (.tag [] text, c.skip 1) else none
    else
      match handle c with
      | none => none
      | some (h, c) =>
        if isHandle h then (uri false [] c).map fun r => (.tag h r.1, r.2)
        else
          (uri false h c).map fun r =>
            (if r.1 = [] then .tag [] ['!'] else .tag ['!'] r.1, r.2)
  match found with
  | none => none
  | some (token, c) => if isGap c.head ∨ (inFlow ∧ c.head = ',') then some (token, c) else none

end Tag

namespace Directive

/-- A number of at most nine digits, and the place after it. -/
def number (c : Cursor) : Option (Nat × Cursor) :=
  let (digits, c) := c.takeWhile Char.isDigit
  if digits = [] ∨ 9 < digits.length then none
  else some (digits.foldl (fun n d => 10 * n + (d.toNat - '0'.toNat)) 0, c)

/-- The two numbers of the version directive. -/
def version (c : Cursor) : Option (Token × Cursor) :=
  match number (c.skipWhile isBlank) with
  | none => none
  | some (major, c) =>
    if c.head ≠ '.' then none
    else (number (c.skip 1)).map fun r => (.version major r.1, r.2)

/-- The handle and the expansion of a tag directive. -/
def tagHandle (c : Cursor) : Option (Token × Cursor) :=
  match Tag.handle (c.skipWhile isBlank) with
  | none => none
  | some (h, c) =>
    if (h ≠ ['!'] ∧ !Tag.isHandle h) ∨ !isBlank c.head then none
    else
      match Tag.uri true [] (c.skipWhile isBlank) with
      | none => none
      | some (expansion, c) => if isGap c.head then some (.tagHandle h expansion, c) else none

/-- The directive here, and the place after its line. -/
def read (c : Cursor) : Option (Token × Cursor) :=
  let (name, c) := (c.skip 1).takeWhile isWord
  if !isGap c.head then none
  else
    let found :=
      if name = ['Y', 'A', 'M', 'L'] then version c
      else if name = ['T', 'A', 'G'] then tagHandle c
      else none
    match found with
    | none => none
    | some (token, c) =>
      let c := c.skipComment
      if isBreakOrEnd c.head then some (token, c.skipBreak) else none

end Directive

/-- The name of an anchor or an alias after its indicator, and the place after it. -/
def anchorName (c : Cursor) : Option (List Char × Cursor) :=
  let (name, c) := (c.skip 1).takeWhile isWord
  if name = [] then none
  else if isGap c.head ∨ ['?', ':', ',', ']', '\x7d', '%', '@', '\x60'].contains c.head then
    some (name, c)
  else none

end ConfigTree.Yaml
