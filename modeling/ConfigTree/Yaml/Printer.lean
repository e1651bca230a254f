import ConfigTree.Yaml.Literal

/-!
# Writing YAML

A value is written in block style: an item after a minus sign and a space, a value after its key and
a colon. What stands inside a collection is indented by two spaces, but for the items of a sequence
that is the value of a key. Empty collections are written as a pair of brackets or braces.

## The model

The text of a value begins where the value stands; its further lines are indented with `nest` by what
contains it. A text is written plain when it is then read back as the same text; with line feeds in
it, it is written as a literal block; otherwise between single quotes, or, if there is something in
it that these cannot hold, between double quotes with escapes.
-/

namespace ConfigTree.Yaml

namespace Printer

/-- How the characters of a text are written. -/
inductive Style where
  /-- As they are. -/
  | plain
  /-- Between single quotes. -/
  | single
  /-- Between double quotes, with escapes. -/
  | double
  /-- As a literal block. -/
  | literal
deriving DecidableEq, Repr

/-- Whether a character is written as it is outside double quotes: no other control character than
the line feed, no byte order mark, and neither of the last two code points of the first plane. -/
def isPrintable (c : Char) : Bool :=
  let n := c.toNat
  n == 0xA || (0x20 ≤ n && n ≤ 0x7E) || (0xA0 ≤ n && n ≤ 0xFFFD && n != 0xFEFF) || 0x10000 ≤ n

/-- Whether a character has a meaning of its own where it stands, between the one before and the
one after it. The end of the text counts as a gap. -/
def isIndicator (before : Option Char) (c : Char) (after : Option Char) : Bool :=
  let beforeGap := after.all isGap
  match before with
  | none =>
    ['#', ',', '[', ']', '\x7b', '\x7d', '&', '*', '!', '|', '>', '\u0027', '"', '%', '@', '\x60'].contains c
      || ((c == '?' || c == ':' || c == '-') && beforeGap)
  | some b => (c == ':' && beforeGap) || (c == '#' && isGap b)

/-- Whether some character of a text has a meaning of its own. -/
def hasIndicator (before : Option Char) : List Char → Bool
  | [] => false
  | c :: cs => isIndicator before c cs.head? || hasIndicator (some c) cs

/-- Whether two neighbours in a text satisfy a test. -/
def hasPair (p : Char → Char → Bool) : List Char → Bool
  | c :: d :: cs => p c d || hasPair p (d :: cs)
  | _ => false

/-- Whether a character cannot be written outside double quotes, or spaces stand before a line
break, where they would be lost. -/
def needsEscapes (cs : List Char) : Bool :=
  cs.any (!isPrintable ·) || hasPair (fun c d => c == ' ' && isBreak d) cs

/-- Whether a text can stand between single quotes. -/
def fitsSingle (cs : List Char) : Bool :=
  !needsEscapes cs && !hasPair (fun c d => isBreak c && d == ' ') cs

/-- Whether a text can be a literal block. -/
def fitsLiteral (cs : List Char) : Bool := !needsEscapes cs && cs.getLast? != some ' '

/-- Whether a text can be written as it is. -/
def fitsPlain (cs : List Char) : Bool :=
  !needsEscapes cs && !cs.any isBreak && cs.head? != some ' ' && cs.getLast? != some ' '
    && !(["---".toList, "...".toList].contains (cs.take 3)) && !hasIndicator none cs

/-- Whether the characters, written as they are, might be read as something else than this text. -/
def isAmbiguous (cs : List Char) : Bool :=
  match Literal.plain? cs with
  | some (.string _) => Literal.isPadded cs
  | _ => true

/-- How a text is written. -/
def style (cs : List Char) : Style :=
  if cs.contains '\n' then if fitsLiteral cs then .literal else .double
  else if !isAmbiguous cs && fitsPlain cs then .plain
  else if fitsSingle cs then .single
  else .double

/-- A number below sixteen as a hexadecimal digit, in upper case. -/
def hexDigit (n : Nat) : Char := (Nat.digitChar n).toUpper

/-- The last `width` hexadecimal digits of a number. -/
def hexDigits : Nat → Nat → List Char
  | 0, _ => []
  | width + 1, n => hexDigits width (n / 16) ++ [hexDigit (n % 16)]

/-- What follows the backslash in the escape of a character. -/
def escapeBody (c : Char) : List Char :=
  let n := c.toNat
  if c = '\x00' then ['0']
  else if c = '\x07' then ['a']
  else if c = '\x08' then ['b']
  else if c = '\t' then ['t']
  else if c = '\n' then ['n']
  else if c = '\x0b' then ['v']
  else if c = '\x0c' then ['f']
  else if c = '\r' then ['r']
  else if c = '\x1b' then ['e']
  else if c = '"' ∨ c = '\\' then [c]
  else if c = '\u0085' then ['N']
  else if c = '\u2028' then ['L']
  else if c = '\u2029' then ['P']
  else if n ≤ 0xFF then 'x' :: hexDigits 2 n
  else if n ≤ 0xFFFF then 'u' :: hexDigits 4 n
  else 'U' :: hexDigits 8 n

/-- A character between double quotes. -/
def escape (c : Char) : List Char :=
  if !isPrintable c || isBreak c || c == '"' || c == '\\' then '\\' :: escapeBody c else [c]

/-- What follows the indicator of a literal block: the indentation, when the block begins with white
space, and what becomes of the line breaks at its end. -/
def literalHeader (cs : List Char) : List Char :=
  let indentation := if cs.head?.any fun c => c == ' ' || isBreak c then ['2'] else []
  let chomping := match cs.reverse with
    | [] => ['-']
    | c :: rest =>
      if !isBreak c then ['-']
      else if rest.head?.all isBreak then ['+']
      else []
  indentation ++ chomping

/-- A text in a style. Its further lines are not indented. -/
def styled (cs : List Char) : Style → List Char
  | .plain => cs
  | .single => '\u0027' :: (cs.flatMap fun c => if c = '\u0027' then [c, c] else [c]) ++ ['\u0027']
  | .double => '"' :: cs.flatMap escape ++ ['"']
  | .literal => '|' :: literalHeader cs ++ '\n' :: cs

/-- A written text. -/
def string (s : String) : List Char := styled s.toList (style s.toList)

/-- Indents every line but the first by two spaces; a line with nothing on it stays as it is. -/
def nest : List Char → List Char
  | c :: d :: cs =>
    if isBreak c && !isBreak d then c :: ' ' :: ' ' :: nest (d :: cs) else c :: nest (d :: cs)
  | cs => cs

/-- Ends the last line. -/
def endLine (cs : List Char) : List Char :=
  if cs.getLast?.any isBreak then cs else cs ++ ['\n']

/-- Texts, each beginning on a line of its own. -/
def lines : List (List Char) → List Char
  | [] => []
  | [t] => t
  | t :: ts => endLine t ++ lines ts

/-- Numbers are laid out as elsewhere, but an exponent has no plus sign. -/
def layout : Binary64.Layout := { Number.layout with plusSign := false }

/-- The text of a number. -/
def number : Number → List Char
  | .int n => (toString n).toList
  | .float x => (x.render layout).toList

/-- Longer keys are written after an indicator. -/
def keyLimit : Nat := 128

/-- Whether a key stands before its colon without an indicator. -/
def isSimpleKey (key : String) : Bool :=
  !key.toList.any isBreak && key.utf8ByteSize ≤ keyLimit

/-- A key with its value: what kind of value it is decides where its text begins. -/
def entry (key : String) (v : Value) (text : List Char) : List Char :=
  if isSimpleKey key then
    string key ++ ':' ::
      match v with
      | .sequence (_ :: _) => '\n' :: text
      | .mapping (_ :: _) => nest ('\n' :: text)
      | _ => ' ' :: nest text
  else '?' :: ' ' :: endLine (nest (string key)) ++ ':' :: ' ' :: nest text

mutual

/-- The text of a value. -/
def text : Value → List Char
  | .null => "null".toList
  | .bool b => (if b then "true" else "false").toList
  | .number n => number n
  | .string s => string s
  | .sequence items => if items.isEmpty then ['[', ']'] else lines (textsOfItems items)
  | .mapping entries => if entries.isEmpty then ['\x7b', '\x7d'] else lines (textsOfEntries entries)

/-- The texts of the items of a sequence. -/
def textsOfItems : List Value → List (List Char)
  | [] => []
  | v :: vs => ('-' :: ' ' :: nest (text v)) :: textsOfItems vs

/-- The texts of the entries of a mapping. -/
def textsOfEntries : List (String × Value) → List (List Char)
  | [] => []
  | (k, v) :: es => entry k v (text v) :: textsOfEntries es

end

/-- The text of a value at the top. -/
def top (v : Value) : List Char :=
  match v with
  | .sequence _ | .mapping _ => text v
  | _ => nest (text v)

end Printer

/-- A value as a YAML text, with its last line ended. -/
def render (v : Value) : String :=
  let text := Printer.top v
  String.ofList (if text.getLast? = some '\n' then text else text ++ ['\n'])

end ConfigTree.Yaml
