import ConfigTree.Yaml.Tag

/-!
# Layout of a YAML text

The layout of a text says which tokens stand in it. A block collection begins where an item or a key
stands further right than the collection around it, and ends where a line stands further left. A
key without an indicator of its own is recognised only when the colon after it is reached, so that
its token, and the token of a mapping that begins with it, are put in front of tokens already read.

## The model

`Layout` is a place in the text with the tokens before it, the columns of the block collections that
are open, and for each open bracket or brace, and for the text outside them, the place where a key
without an indicator may begin. `Layout.step` reads the next token; `Layout.tokens?` reads all. Nothing is
given when the text is at fault.
-/

namespace ConfigTree.Yaml

/-- A place where a key without an indicator may begin. -/
structure PendingKey where
  /-- Whether only a key can stand there. -/
  required : Bool
  /-- The number of tokens before. -/
  position : Nat
  /-- The number of characters before. -/
  index : Nat
  /-- The number of lines before. -/
  line : Nat
  /-- The number of characters before on the same line. -/
  column : Nat

/-- What is known of a text up to a place. -/
structure Layout where
  /-- The place. -/
  cursor : Cursor
  /-- The columns of the open block collections, the innermost first. -/
  blocks : List Nat := []
  /-- Whether a key without an indicator may begin here. -/
  keyAllowed : Bool := true
  /-- The pending keys, first the one inside the innermost bracket or brace, last the one outside. -/
  keys : List (Option PendingKey) := [none]
  /-- The tokens before, the newest first. -/
  written : List Token := []

namespace Layout

/-- A key without an indicator and its colon are at most this many characters apart. -/
def keyReach : Nat := 1024

/-- Whether the place is inside brackets or braces. -/
def inFlow (s : Layout) : Bool := 1 < s.keys.length

/-- The column of the innermost block collection; minus one outside all. -/
def indent (s : Layout) : Int :=
  match s.blocks with
  | [] => -1
  | column :: _ => column

/-- One more token. -/
def emit (s : Layout) (t : Token) : Layout := { s with written := t :: s.written }

/-- One more token, with a number of tokens before it. -/
def emitAt (s : Layout) (position : Nat) (t : Token) : Layout :=
  let later := s.written.length - position
  { s with written := s.written.take later ++ t :: s.written.drop later }

/-- The character here as a token of its own. -/
def emitHere (s : Layout) (t : Token) : Layout :=
  { s with written := t :: s.written, cursor := s.cursor.skip 1 }

/-- Begins a block collection at a column that is further right than the open ones. -/
def openBlock (s : Layout) (column position : Nat) (t : Token) : Layout :=
  if !s.inFlow ∧ s.indent < column then
    { s with blocks := column :: s.blocks }.emitAt position t
  else s

/-- Ends the innermost block collections whose columns satisfy a test. -/
def closeBlocks (s : Layout) (closes : Nat → Bool) : Layout :=
  if s.inFlow then s
  else
    { s with
      blocks := s.blocks.dropWhile closes
      written := (s.blocks.takeWhile closes).map (fun _ => .blockEnd) ++ s.written }

/-- Gives up the pending key; it is a fault when only a key can stand there. -/
def dropKey (s : Layout) : Option Layout :=
  match s.keys with
  | some k :: outer => if k.required then none else some { s with keys := none :: outer }
  | _ => some s

/-- Notes that a key may begin here. -/
def saveKey (s : Layout) : Option Layout :=
  if s.keyAllowed then
    s.dropKey.map fun s =>
      let key : PendingKey :=
        { required := !s.inFlow && s.indent == (s.cursor.column : Int)
          position := s.written.length
          index := s.cursor.index
          line := s.cursor.line
          column := s.cursor.column }
      { s with keys := some key :: s.keys.tail }
  else some s

/-- Gives up the pending keys that are on a line before or too far away. -/
def dropStaleKeys (s : Layout) : Option Layout :=
  let kept (key : Option PendingKey) : Option (Option PendingKey) :=
    match key with
    | none => some none
    | some k =>
      if k.line < s.cursor.line ∨ k.index + keyReach < s.cursor.index then
        if k.required then none else some none
      else some (some k)
  (s.keys.mapM kept).map fun keys => { s with keys := keys }

/-- The place of the next token: after blanks, comments and line breaks. A byte order mark is skipped
at the beginning of a line, where it takes up a column; a tab only where it cannot be mistaken for
indentation. -/
def skipToToken : Nat → Layout → Layout
  | 0, s => s
  | fuel + 1, s =>
    let c := if s.cursor.column = 0 ∧ s.cursor.head = '\ufeff' then s.cursor.skip 1 else s.cursor
    let c := c.skipWhile fun b => b == ' ' || ((s.inFlow || !s.keyAllowed) && b == '\t')
    let c := if c.head = '#' then c.skipWhile (!isBreakOrEnd ·) else c
    if isBreak c.head then
      skipToToken fuel { s with cursor := c.skipBreak, keyAllowed := s.keyAllowed || !s.inFlow }
    else { s with cursor := c }

/-- Whether a plain scalar may begin with the character here. -/
def atPlain (s : Layout) : Bool :=
  let c := s.cursor.head
  let next := s.cursor.peek 1
  !(isGap c || ['-', '?', ':', ',', '[', ']', '\x7b', '\x7d', '#', '&', '*', '!', '|', '>', '\u0027', '"', '%',
      '@', '\x60'].contains c)
    || (c == '-' && !isBlank next)
    || (!s.inFlow && (c == '?' || c == ':') && !isGap next)

/-- A directive, or a marker that begins or ends a document. -/
def stepAcross (s : Layout) (read : Cursor → Option (Token × Cursor)) : Option Layout :=
  (s.closeBlocks fun _ => true).dropKey.bind fun s =>
    (read s.cursor).map fun r => { s with keyAllowed := false, cursor := r.2 }.emit r.1

/-- An opening bracket or brace. -/
def stepOpen (s : Layout) (t : Token) : Option Layout :=
  s.saveKey.map fun s => { s with keys := none :: s.keys, keyAllowed := true }.emitHere t

/-- A closing bracket or brace. -/
def stepClose (s : Layout) (t : Token) : Option Layout :=
  s.dropKey.map fun s =>
    { s with keys := if s.inFlow then s.keys.tail else s.keys, keyAllowed := false }.emitHere t

/-- The indicator of an item or a key, which outside brackets and braces may begin a collection. -/
def stepEntry (s : Layout) (starts t : Token) (keyAllowed : Bool) : Option Layout :=
  if !s.inFlow ∧ !s.keyAllowed then none
  else
    (s.openBlock s.cursor.column s.written.length starts).dropKey.map fun s =>
      { s with keyAllowed := keyAllowed }.emitHere t

/-- The colon before a value. -/
def stepValue (s : Layout) : Option Layout :=
  match s.keys with
  | some k :: outer =>
    let s := { s with keys := none :: outer, keyAllowed := false }.emitAt k.position .key
    some ((s.openBlock k.column k.position .blockMappingStart).emitHere .value)
  | _ =>
    if !s.inFlow ∧ !s.keyAllowed then none
    else
      let s := s.openBlock s.cursor.column s.written.length .blockMappingStart
      some ({ s with keyAllowed := !s.inFlow }.emitHere .value)

/-- A token that may be, or belong to, a key. -/
def stepNode (s : Layout) (read : Cursor → Option (Token × Cursor)) : Option Layout :=
  s.saveKey.bind fun s =>
    (read s.cursor).map fun r => { s with keyAllowed := false, cursor := r.2 }.emit r.1

/-- A block scalar, after which a key may begin. -/
def stepBlockScalar (s : Layout) (literal : Bool) : Option Layout :=
  s.dropKey.bind fun s =>
    (Scalar.block literal s.indent s.cursor).map fun r =>
      { s with keyAllowed := true, cursor := r.2 }.emit (.scalar r.1 false)

/-- A plain scalar. A key may begin after it when it ends with its line. -/
def stepPlain (s : Layout) : Option Layout :=
  s.saveKey.bind fun s =>
    (Scalar.plain s.inFlow (s.indent + 1) s.cursor).map fun r =>
      { s with keyAllowed := r.2.1, cursor := r.2.2 }.emit (.scalar r.1 true)

/-- Reads the token that begins here. -/
def stepHere (s : Layout) : Option Layout :=
  let c := s.cursor
  let h := c.head
  if c.column = 0 ∧ h = '%' then s.stepAcross Directive.read
  else if c.atMarker '-' then s.stepAcross fun c => some (.documentStart, c.skip 3)
  else if c.atMarker '.' then s.stepAcross fun c => some (.documentEnd, c.skip 3)
  else if h = '[' then s.stepOpen .flowSequenceStart
  else if h = '\x7b' then s.stepOpen .flowMappingStart
  else if h = ']' then s.stepClose .flowSequenceEnd
  else if h = '\x7d' then s.stepClose .flowMappingEnd
  else if h = ',' then s.dropKey.map fun s => { s with keyAllowed := true }.emitHere .flowEntry
  else if h = '-' ∧ isGap (c.peek 1) then s.stepEntry .blockSequenceStart .blockEntry true
  else if h = '?' ∧ (s.inFlow ∨ isGap (c.peek 1)) then
    s.stepEntry .blockMappingStart .key (!s.inFlow)
  else if h = ':' ∧ (s.inFlow ∨ isGap (c.peek 1)) then s.stepValue
  else if h = '*' then s.stepNode fun c => (anchorName c).map fun r => (.alias r.1, r.2)
  else if h = '&' then s.stepNode fun c => (anchorName c).map fun r => (.anchor r.1, r.2)
  else if h = '!' then s.stepNode (Tag.read s.inFlow)
  else if (h = '|' ∨ h = '>') ∧ !s.inFlow then s.stepBlockScalar (h = '|')
  else if h = '\u0027' ∨ h = '"' then
    s.stepNode fun c => (Scalar.quoted (h = '\u0027') c).map fun r => (.scalar r.1 false, r.2)
  else if s.atPlain then s.stepPlain
  else none

/-- The tokens from here to the end of the text, after those already read. -/
def rest : Nat → Layout → Option (List Token)
  | 0, _ => none
  | fuel + 1, s =>
    match (skipToToken (s.cursor.rest.length + 1) s).dropStaleKeys with
    | none => none
    | some s =>
      let s := s.closeBlocks (s.cursor.column < ·)
      if s.cursor.rest = [] then
        (s.closeBlocks fun _ => true).dropKey.map fun s => s.written.reverse
      else s.stepHere.bind (rest fuel)

/-- The tokens of a text. -/
def tokens? (text : List Char) : Option (List Token) :=
  if text.all isAllowed then rest (text.length + 1) { cursor := { rest := text } } else none

end Layout

end ConfigTree.Yaml
