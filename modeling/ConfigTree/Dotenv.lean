import ConfigTree.Text.Alphanumeric
import ConfigTree.World

/-!
# The `.env` file

Variables can be kept in a file named `.env`. It is looked for in the working directory and in the
directories above. Its lines set variables, a name and a text around an equals sign; a variable that
is set already, also to the empty text, keeps its text. A faulty line stops the reading, and what the
lines before it have set stays.

## The model

A variable can be set over several lines: a line goes on while a quote is open, or when it ends
after a backslash or a blank. `Quoting` is what has to be remembered from one line to the next, and
`gather` puts together the text of one assignment. `Assignment.read` then takes it apart. The text
of the value is worked off character by character by `Reader`, whose state holds the open quote and
the name of a variable that is just being read after a dollar sign.

Faults are told by a position: where a name or the equals sign was expected, in bytes; for a value
followed by something else, the number of characters of the value before that; for a quote that is
never closed, the last byte.
-/

namespace ConfigTree.Dotenv

/-- What keeps a `.env` file from being read to its end. -/
inductive Fault where
  /-- A line breaks the grammar at this position. -/
  | parse (position : Nat)
  /-- The file cannot be read. -/
  | read (source : OsError)
deriving DecidableEq, Repr

/-- The number of bytes of a list of characters. -/
def byteLength (cs : List Char) : Nat := (String.ofList cs).utf8ByteSize

/-- What the beginning of an assignment leaves open. -/
inductive Quoting where
  /-- Nothing. -/
  | complete
  /-- A blank was the last character. -/
  | blank
  /-- A backslash was the last character. -/
  | escape
  /-- A single quote is open. -/
  | strong
  /-- A single quote is open, and a backslash was the last character. -/
  | strongEscape
  /-- A double quote is open. -/
  | weak
  /-- A double quote is open, and a backslash was the last character. -/
  | weakEscape
deriving DecidableEq, Repr

/-- The apostrophe, which serves as the single quote. -/
def singleQuote : Char := '\u0027'

/-- What a character opens outside quotes. -/
def Quoting.opened (c : Char) : Quoting :=
  if c = '\\' then escape
  else if c = '"' then weak
  else if c = singleQuote then strong
  else complete

/-- What is open after one more character. -/
def Quoting.next (q : Quoting) (c : Char) : Quoting :=
  match q with
  | blank => opened c
  | escape => complete
  | complete => if Text.isBlank c ∧ c ≠ '\n' ∧ c ≠ '\r' then blank else opened c
  | weak => if c = '\\' then weakEscape else if c = '"' then complete else weak
  | weakEscape => weak
  | strong => if c = '\\' then strongEscape else if c = singleQuote then complete else strong
  | strongEscape => strong

/-- What is open after a line, or the part of the line before a comment. A comment begins with a
number sign after a blank. -/
def Quoting.scan (q : Quoting) : List Char → Quoting ⊕ List Char
  | [] => .inl q
  | c :: cs =>
    if q = blank ∧ c = '#' then .inr []
    else
      match (q.next c).scan cs with
      | .inl q => .inl q
      | .inr before => .inr (c :: before)

/-- The line without the line feed at its end and a carriage return before that. -/
def dropLineEnd (line : List Char) : List Char :=
  match line.reverse with
  | '\n' :: '\r' :: rest => rest.reverse
  | '\n' :: rest => rest.reverse
  | _ => line

/-- The text of the next assignment, when `before` was read and left `q` open, and the lines after
it. Lines come with their line feeds; a line that is no text is `none`. Nothing is left at the end. -/
def gather (before : List Char) (q : Quoting) :
    List (Option (List Char)) → Option (Except Fault (List Char × List (Option (List Char))))
  | [] => if q = .complete then none else some (.error (.parse (byteLength before)))
  | none :: _ => some (.error (.read .notText))
  | some line :: rest =>
    let text := before ++ line
    if (Text.trimLeft text).head? = some '#' then some (.ok ([], rest))
    else
      match q.scan line with
      | .inr kept => some (.ok (before ++ kept, rest))
      | .inl .complete => some (.ok (dropLineEnd text, rest))
      | .inl q => gather text q rest

/-- The name of a variable that is being read inside a value. -/
inductive Naming where
  /-- No name is being read. -/
  | none
  /-- The name after a dollar sign, without braces. -/
  | bare (name : List Char)
  /-- The name after a dollar sign and an opening brace. -/
  | braced (name : List Char)
deriving DecidableEq, Repr

/-- What is known while a value is read. -/
structure Reader where
  /-- The text of the value so far. -/
  output : List Char := []
  /-- Whether a single quote is open. -/
  strong : Bool := false
  /-- Whether a double quote is open. -/
  weak : Bool := false
  /-- Whether a backslash was the last character. -/
  escaped : Bool := false
  /-- Whether only blanks and a comment may follow. -/
  ending : Bool := false
  /-- The name that is being read. -/
  naming : Naming := .none
deriving DecidableEq, Repr

/-- The text that a name stands for: that of the variable, else that of an earlier line, else nothing. -/
def textOf (env : Environment) (earlier : Entries String) (name : List Char) : List Char :=
  let name := String.ofList name
  match env.lookup name with
  | some text => text.toList
  | none => ((Entries.get? earlier name).getD "").toList

/-- What a backslash and a character stand for. -/
def escape? (c : Char) : Option Char :=
  if c = '\\' ∨ c = singleQuote ∨ c = '"' ∨ c = '$' ∨ c = ' ' then some c
  else if c = 'n' then some '\n'
  else none

namespace Reader

/-- The reader after a character inside a bare name. -/
def afterBare (subst : List Char → List Char) (r : Reader) (name : List Char) (c : Char) : Reader :=
  if Text.isAlphanumeric c then { r with naming := .bare (name ++ [c]) }
  else if c = '\x7b' ∧ name = [] then { r with naming := .braced [] }
  else
    let output := r.output ++ subst name
    if c = '$' then { r with output := output, naming := .bare [] }
    else { r with output := output ++ [c], naming := .none }

/-- The reader after a character inside a name in braces. -/
def afterBraced (subst : List Char → List Char) (r : Reader) (name : List Char) (c : Char) :
    Reader :=
  if c = '\x7d' then { r with output := r.output ++ subst name, naming := .none }
  else { r with naming := .braced (name ++ [c]) }

/-- The reader after a character that belongs to no name and no single quotes. -/
def afterPlain (r : Reader) (c : Char) : Reader :=
  if c = '$' then { r with naming := .bare [] }
  else if r.weak then
    if c = '"' then { r with weak := false }
    else if c = '\\' then { r with escaped := true }
    else { r with output := r.output ++ [c] }
  else if c = singleQuote then { r with strong := true }
  else if c = '"' then { r with weak := true }
  else if c = '\\' then { r with escaped := true }
  else if c = ' ' ∨ c = '\t' then { r with ending := true }
  else { r with output := r.output ++ [c] }

/-- The reader after the rest of a value, of which `index` characters were read; the number of
characters before a fault when there is one. -/
def read (subst : List Char → List Char) (r : Reader) (index : Nat) :
    List Char → Except Nat Reader
  | [] => .ok r
  | c :: cs =>
    if r.ending then
      if c = ' ' ∨ c = '\t' then read subst r (index + 1) cs
      else if c = '#' then .ok r
      else .error index
    else if r.escaped then
      match escape? c with
      | some e => read subst { r with output := r.output ++ [e], escaped := false } (index + 1) cs
      | none => .error index
    else if r.strong then
      if c = singleQuote then read subst { r with strong := false } (index + 1) cs
      else read subst { r with output := r.output ++ [c] } (index + 1) cs
    else
      match r.naming with
      | .bare name => read subst (r.afterBare subst name c) (index + 1) cs
      | .braced name => read subst (r.afterBraced subst name c) (index + 1) cs
      | .none => read subst (r.afterPlain c) (index + 1) cs

/-- The text of a whole value. -/
def finish (subst : List Char → List Char) (r : Reader) (value : List Char) :
    Except Fault (List Char) :=
  if r.strong ∨ r.weak then .error (.parse (byteLength value - 1))
  else
    match r.naming with
    | .braced _ => .error (.parse (byteLength value - 1))
    | .bare name => .ok (r.output ++ subst name)
    | .none => .ok r.output

end Reader

/-- The text that a value stands for. -/
def readValue (subst : List Char → List Char) (value : List Char) : Except Fault (List Char) :=
  match ({} : Reader).read subst 0 value with
  | .error position => .error (.parse position)
  | .ok r => r.finish subst value

/-- What is left of a line, and how many bytes of it were read. -/
structure Cursor where
  /-- The characters that are left. -/
  rest : List Char
  /-- The bytes before them. -/
  position : Nat

namespace Cursor

/-- The cursor after the blanks. -/
def skipBlanks (c : Cursor) : Cursor :=
  ⟨Text.trimLeft c.rest, c.position + byteLength (c.rest.takeWhile Text.isBlank)⟩

/-- The name of a variable, and the cursor after it. A name begins with an ASCII letter or an
underscore and goes on with ASCII letters, digits, underscores and dots. -/
def readName (c : Cursor) : Except Fault (List Char × Cursor) :=
  match c.rest with
  | [] => .error (.parse c.position)
  | first :: _ =>
    if first.isAlpha ∨ first = '_' then
      let inName (d : Char) : Bool := d.isAlphanum || d == '_' || d == '.'
      let name := c.rest.takeWhile inName
      .ok (name, ⟨c.rest.dropWhile inName, c.position + name.length⟩)
    else .error (.parse c.position)

/-- The cursor after an equals sign. -/
def expectEquals (c : Cursor) : Except Fault Cursor :=
  match c.rest with
  | '=' :: rest => .ok ⟨rest, c.position + 1⟩
  | _ => .error (.parse c.position)

end Cursor

/-- A name and the text it is set to; no text when the line gives none. -/
structure Assignment where
  /-- The name of the variable. -/
  name : String
  /-- The text, if there is one. -/
  text : Option String

namespace Assignment

/-- The word that may stand before a name. -/
def exportWord : List Char := ['e', 'x', 'p', 'o', 'r', 't']

/-- The name that a line assigns to, and the cursor after the equals sign. The word `export` may
stand in front, and is itself a name when the equals sign follows it. -/
def readTarget (c : Cursor) : Except Fault (List Char × Cursor) := do
  let (name, c) ← c.readName
  let c := c.skipBlanks
  match name == exportWord, c.expectEquals with
  | true, .error _ =>
    let (name, c) ← c.readName
    let c ← c.skipBlanks.expectEquals
    return (name, c)
  | _, .ok c => return (name, c)
  | _, .error e => .error e

/-- The assignment that a line makes; none when the line is empty or a comment. -/
def read (env : Environment) (earlier : Entries String) (line : List Char) :
    Except Fault (Option Assignment) :=
  let start := Cursor.skipBlanks ⟨Text.trimRight line, 0⟩
  if start.rest = [] ∨ start.rest.head? = some '#' then .ok none
  else
    match readTarget start with
    | .error e => .error e
    | .ok (name, c) =>
      let value := c.skipBlanks.rest
      if value = [] ∨ value.head? = some '#' then .ok (some ⟨String.ofList name, none⟩)
      else
        (readValue (textOf env earlier) value).map fun text =>
          some ⟨String.ofList name, some (String.ofList text)⟩

end Assignment

/-- The environment after the lines, and the fault that stopped the reading. The texts of earlier
lines can be used in later ones, also when the variables were set before and kept their texts. -/
def apply : Nat → Environment → Entries String → List (Option (List Char)) →
    Environment × Option Fault
  | 0, env, _, _ => (env, none)
  | fuel + 1, env, earlier, lines =>
    match gather [] .complete lines with
    | none => (env, none)
    | some (.error e) => (env, some e)
    | some (.ok (line, rest)) =>
      match Assignment.read env earlier line with
      | .error e => (env, some e)
      | .ok none => apply fuel env earlier rest
      | .ok (some a) =>
        let text := a.text.getD ""
        let env := if (env.lookup a.name).isSome then env else Entries.insert env a.name text
        apply fuel env (Entries.insert earlier a.name text) rest

/-- The bytes cut after each line feed. -/
def splitLines : List UInt8 → List (List UInt8)
  | [] => []
  | b :: bs =>
    match b == 10, splitLines bs with
    | true, ls => [b] :: ls
    | false, [] => [[b]]
    | false, l :: ls => (b :: l) :: ls

/-- The bytes without the mark that may stand at the beginning of a text file. -/
def dropMark : List UInt8 → List UInt8
  | 0xEF :: 0xBB :: 0xBF :: bs => bs
  | bs => bs

/-- The lines of a file; a line that is no text is `none`. -/
def linesOf (bytes : ByteArray) : List (Option (List Char)) :=
  (splitLines (dropMark bytes.toList)).map fun l =>
    (String.fromUTF8? (ByteArray.mk l.toArray)).map String.toList

/-- The name of the file. -/
def fileName : List Char := ['.', 'e', 'n', 'v']

/-- The bytes of the first file named `.env` in the directory that names lead to, or above it. -/
def find (w : World) : Nat → List (List Char) → Except OsError (Option ByteArray)
  | 0, _ => .ok none
  | fuel + 1, ns =>
    match w.lookup (String.ofList (FilePath.ofNames (ns ++ [fileName]))) with
    | .ok (.file bytes) => .ok (some bytes)
    | .ok .directory | .error .notFound =>
      if ns = [] then .ok none else find w fuel ns.dropLast
    | .error e => .error e

/-- The world with the variables of its `.env` file set, and the fault that stopped the reading. -/
def load (w : World) : World × Option Fault :=
  let ns := FilePath.names w.cwd.toList
  match find w (ns.length + 1) ns with
  | .error e => (w, some (.read e))
  | .ok none => (w, none)
  | .ok (some bytes) =>
    let lines := linesOf bytes
    let (env, fault) := apply (lines.length + 1) w.env [] lines
    ({ w with env := env }, fault)

end ConfigTree.Dotenv
