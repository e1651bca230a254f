import ConfigTree.Yaml.Cursor

/-!
# Scalars of a YAML text

A scalar stands plain, between quotes, or as a block of lines. In plain and quoted scalars line breaks
are folded: a single one is read as a space, and of several the first is dropped. In a literal block
they stay; in a folded one they are folded between lines that do not begin with a blank.

## The model

Each reader begins at the first character of its scalar and gives the text with the place after the
scalar; nothing is given when the text is at fault. `Folding` is what quoted and plain scalars
remember of the white space since their last character. A reader that goes on for an unknown number
of steps is given the number of characters that are left, since each step takes one.
-/

namespace ConfigTree.Yaml

/-- The white space read since the last character of a scalar. -/
structure Folding where
  /-- Blanks before the first line break. -/
  blanks : List Char := []
  /-- Whether there was a line break. -/
  broken : Bool := false
  /-- The first line break. -/
  first : List Char := []
  /-- The line breaks after the first. -/
  more : List Char := []

namespace Folding

/-- The white space with one more blank; blanks after a line break do not count. -/
def addBlank (f : Folding) (c : Char) : Folding :=
  if f.broken then f else { f with blanks := f.blanks ++ [c] }

/-- The white space with one more line break. -/
def addBreak (f : Folding) (b : List Char) : Folding :=
  if f.broken then { f with more := f.more ++ b } else { f with broken := true, blanks := [], first := b }

/-- What the white space means inside a scalar. -/
def text (f : Folding) : List Char :=
  if f.broken then
    if f.first.head? = some '\n' then if f.more = [] then [' '] else f.more
    else f.first ++ f.more
  else f.blanks

end Folding

namespace Scalar

/-- The value of a hexadecimal digit. -/
def hexValue? (c : Char) : Option Nat :=
  if c.isDigit then some (c.toNat - '0'.toNat)
  else if 'a' ≤ c ∧ c ≤ 'f' then some (c.toNat - 'a'.toNat + 10)
  else if 'A' ≤ c ∧ c ≤ 'F' then some (c.toNat - 'A'.toNat + 10)
  else none

/-- The number that hexadecimal digits write. -/
def hexNumber? (n : Nat) : List Char → Option Nat
  | [] => some n
  | c :: cs => (hexValue? c).bind fun d => hexNumber? (16 * n + d) cs

/-- What a letter after a backslash stands for. -/
def shortEscape? (c : Char) : Option Char :=
  if c = '0' then some '\x00'
  else if c = 'a' then some '\x07'
  else if c = 'b' then some '\x08'
  else if c = 't' ∨ c = '\t' then some '\t'
  else if c = 'n' then some '\n'
  else if c = 'v' then some '\x0b'
  else if c = 'f' then some '\x0c'
  else if c = 'r' then some '\r'
  else if c = 'e' then some '\x1b'
  else if c = ' ' ∨ c = '"' ∨ c = '/' ∨ c = '\\' then some c
  else if c = 'N' then some '\u0085'
  else if c = '_' then some '\u00a0'
  else if c = 'L' then some '\u2028'
  else if c = 'P' then some '\u2029'
  else none

/-- The number of hexadecimal digits that a letter after a backslash announces. -/
def escapeLength? (c : Char) : Option Nat :=
  if c = 'x' then some 2 else if c = 'u' then some 4 else if c = 'U' then some 8 else none

/-- The character of an escape, and the place after it. -/
def escape (c : Cursor) : Option (Char × Cursor) :=
  match shortEscape? (c.peek 1), escapeLength? (c.peek 1) with
  | some e, _ => some (e, c.skip 2)
  | none, none => none
  | none, some n =>
    let digits := (c.rest.drop 2).take n
    if digits.length < n then none
    else
      match hexNumber? 0 digits with
      | none => none
      | some v =>
        if (0xD800 ≤ v ∧ v ≤ 0xDFFF) ∨ 0x10FFFF < v then none
        else some (Char.ofNat v, c.skip (2 + n))

/-- The characters of a quoted scalar up to a gap or the closing quote, and whether they end with
an escaped line break. -/
def quotedRun (single : Bool) : Nat → Cursor → Option (List Char × Bool × Cursor)
  | 0, _ => none
  | fuel + 1, c =>
    let h := c.head
    if isGap h then some ([], false, c)
    else if single ∧ h = '\u0027' ∧ c.peek 1 = '\u0027' then
      (quotedRun single fuel (c.skip 2)).map fun r => (h :: r.1, r.2)
    else if h = (if single then '\u0027' else '"') then some ([], false, c)
    else if !single ∧ h = '\\' ∧ isBreak (c.peek 1) then some ([], true, (c.skip 1).skipBreak)
    else if !single ∧ h = '\\' then
      match escape c with
      | none => none
      | some (e, c) => (quotedRun single fuel c).map fun r => (e :: r.1, r.2)
    else (quotedRun single fuel (c.skip 1)).map fun r => (h :: r.1, r.2)

/-- The white space from here on, added to what was read before. -/
def quotedGap (f : Folding) : Nat → Cursor → Folding × Cursor
  | 0, c => (f, c)
  | fuel + 1, c =>
    if isBlank c.head then quotedGap (f.addBlank c.head) fuel (c.skip 1)
    else if isBreak c.head then
      let (b, c) := c.takeBreak
      quotedGap (f.addBreak b) fuel c
    else (f, c)

/-- The text of a quoted scalar after its opening quote, and the place after the closing one. -/
def quotedBody (single : Bool) : Nat → Cursor → Option (List Char × Cursor)
  | 0, _ => none
  | fuel + 1, c =>
    if c.atDocumentMarker ∨ c.head = endMark then none
    else
      match quotedRun single (c.rest.length + 1) c with
      | none => none
      | some (run, escapedBreak, c) =>
        if c.head = (if single then '\u0027' else '"') then some (run, c.skip 1)
        else
          let start : Folding := { broken := escapedBreak }
          let (gap, c) := quotedGap start (c.rest.length + 1) c
          (quotedBody single fuel c).map fun r => (run ++ gap.text ++ r.1, r.2)

/-- The text of a quoted scalar, and the place after it. -/
def quoted (single : Bool) (c : Cursor) : Option (List Char × Cursor) :=
  quotedBody single (c.rest.length + 1) (c.skip 1)

/-- Whether a character ends a plain scalar inside brackets or braces. -/
def isFlowIndicator (c : Char) : Bool :=
  c == ',' || c == '[' || c == ']' || c == '\x7b' || c == '\x7d'

/-- The characters of a plain scalar up to a gap or an indicator. -/
def plainRun (inFlow : Bool) : Nat → Cursor → Option (List Char × Cursor)
  | 0, _ => none
  | fuel + 1, c =>
    let h := c.head
    if isGap h then some ([], c)
    else if inFlow ∧ h = ':' ∧ (isFlowIndicator (c.peek 1) ∨ c.peek 1 = '?') then none
    else if (h = ':' ∧ isGap (c.peek 1)) ∨ (inFlow ∧ isFlowIndicator h) then some ([], c)
    else (plainRun inFlow fuel (c.skip 1)).map fun r => (h :: r.1, r.2)

/-- The white space from here on. A tab may not stand in the indentation of a further line. -/
def plainGap (indent : Int) (f : Folding) : Nat → Cursor → Option (Folding × Cursor)
  | 0, c => some (f, c)
  | fuel + 1, c =>
    if isBlank c.head then
      if f.broken ∧ (c.column : Int) < indent ∧ c.head = '\t' then none
      else plainGap indent (f.addBlank c.head) fuel (c.skip 1)
    else if isBreak c.head then
      let (b, c) := c.takeBreak
      plainGap indent (f.addBreak b) fuel c
    else some (f, c)

/-- A plain scalar whose further lines stand at `indent` or further right, when the white space
`gap` was read since its last character: its text, whether it ends after a line break, and the
place after it. -/
def plainBody (inFlow : Bool) (indent : Int) (gap : Folding) :
    Nat → Cursor → Option (List Char × Bool × Cursor)
  | 0, _ => none
  | fuel + 1, c =>
    if c.atDocumentMarker ∨ c.head = '#' then some ([], gap.broken, c)
    else
      match plainRun inFlow (c.rest.length + 1) c with
      | none => none
      | some (run, c) =>
        let before := if run = [] then [] else gap.text ++ run
        let gap := if run = [] then gap else {}
        if !(isBlank c.head || isBreak c.head) then some (before, gap.broken, c)
        else
          match plainGap indent gap (c.rest.length + 1) c with
          | none => none
          | some (gap, c) =>
            if !inFlow ∧ (c.column : Int) < indent then some (before, gap.broken, c)
            else (plainBody inFlow indent gap fuel c).map fun r => (before ++ r.1, r.2)

/-- A plain scalar: its text, whether it ends after a line break, and the place after it. -/
def plain (inFlow : Bool) (indent : Int) (c : Cursor) : Option (List Char × Bool × Cursor) :=
  plainBody inFlow indent {} (c.rest.length + 1) c

/-- What a block scalar does with the line breaks at its end. -/
inductive Chomping where
  /-- All are dropped. -/
  | strip
  /-- One is kept. -/
  | clip
  /-- All are kept. -/
  | keep
deriving DecidableEq, Repr

/-- The chomping that a sign asks for. -/
def chomping? (c : Char) : Option Chomping :=
  if c = '+' then some .keep else if c = '-' then some .strip else none

/-- The sign and the digit after the indicator of a block scalar, in either order. -/
def blockHeader (c : Cursor) : Option (Chomping × Nat × Cursor) :=
  let digit (c : Cursor) : Option (Nat × Cursor) :=
    if c.head.isDigit then
      if c.head = '0' then none else some (c.head.toNat - '0'.toNat, c.skip 1)
    else some (0, c)
  match chomping? c.head with
  | some chomping => (digit (c.skip 1)).map fun r => (chomping, r)
  | none =>
    match digit c with
    | none => none
    | some (increment, c) =>
      match (if increment = 0 then none else chomping? c.head) with
      | some chomping => some (chomping, increment, c.skip 1)
      | none => some (.clip, increment, c)

/-- The empty lines from here on: their line breaks, the widest indentation seen, and the place of
the next character. `indent` is zero while the indentation of the scalar is not known. -/
def blockGap (indent : Nat) : Nat → Nat → Cursor → Option (List Char × Nat × Cursor)
  | 0, widest, c => some ([], widest, c)
  | fuel + 1, widest, c =>
    let spaces := (c.rest.takeWhile (· == ' ')).length
    let c := c.skip (if indent = 0 then spaces else min spaces (indent - c.column))
    let widest := max widest c.column
    if (indent = 0 ∨ c.column < indent) ∧ c.head = '\t' then none
    else if isBreak c.head then
      let (b, c) := c.takeBreak
      (blockGap indent fuel widest c).map fun r => (b ++ r.1, r.2)
    else some ([], widest, c)

/-- The lines of a block scalar: the text without the line breaks at its end, the line break after
the last line, those after it, and the place after the scalar. -/
def blockLines (literal : Bool) (indent : Nat) (leadingBlank : Bool) (leading trailing : List Char) :
    Nat → Cursor → Option (List Char × List Char × List Char × Cursor)
  | 0, _ => none
  | fuel + 1, c =>
    if c.column ≠ indent ∨ c.head = endMark then some ([], leading, trailing, c)
    else
      let blank := isBlank c.head
      let glue :=
        if !literal ∧ leading.head? = some '\n' ∧ !leadingBlank ∧ !blank then
          if trailing = [] then [' '] else []
        else leading
      let (line, c) := c.takeWhile (!isBreakOrEnd ·)
      let (leading, c) := c.takeBreak
      let text := glue ++ trailing ++ line
      match blockGap indent (c.rest.length + 1) 0 c with
      | none => none
      | some (trailing, _, c) =>
        (blockLines literal indent blank leading trailing fuel c).map fun r => (text ++ r.1, r.2)

/-- The text of a block scalar inside a block at `parent`, and the place after it. -/
def block (literal : Bool) (parent : Int) (c : Cursor) : Option (List Char × Cursor) :=
  match blockHeader (c.skip 1) with
  | none => none
  | some (chomping, increment, c) =>
    let c := c.skipComment
    if !isBreakOrEnd c.head then none
    else
      let c := c.skipBreak
      let given := if increment = 0 then 0 else (max parent 0).toNat + increment
      match blockGap given (c.rest.length + 1) 0 c with
      | none => none
      | some (trailing, widest, c) =>
        let indent := if given = 0 then max (max widest (parent + 1).toNat) 1 else given
        match blockLines literal indent false [] trailing (c.rest.length + 1) c with
        | none => none
        | some (text, leading, trailing, c) =>
          let last := if chomping = .strip then [] else leading
          let kept := if chomping = .keep then trailing else []
          some (text ++ last ++ kept, c)

end Scalar

end ConfigTree.Yaml
