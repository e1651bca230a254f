import ConfigTree.Value

/-!
# Writing JSON

A value is written on one line without spaces (`compact`), or over several lines with two spaces for
each level (`pretty`). Entries are written in their order.

A string is written between double quotes. A quote, a backslash and the characters below the space
are escaped, with a letter where JSON has one and with four hexadecimal digits otherwise; everything
else stands for itself.
-/

namespace ConfigTree.Json

/-- The hexadecimal digit of a number below sixteen, in lower case. -/
def hexDigit (n : Nat) : Char := Nat.digitChar n

/-- A character as it stands inside a quoted string. -/
def escapeChar (c : Char) : List Char :=
  if c = '"' then ['\\', '"']
  else if c = '\\' then ['\\', '\\']
  else if c = '\n' then ['\\', 'n']
  else if c = '\r' then ['\\', 'r']
  else if c = '\t' then ['\\', 't']
  else if c = '\x08' then ['\\', 'b']
  else if c = '\x0c' then ['\\', 'f']
  else if c.toNat < 0x20 then
    ['\\', 'u', '0', '0', hexDigit (c.toNat / 16), hexDigit (c.toNat % 16)]
  else [c]

/-- A text between quotes. -/
def quote (s : String) : String :=
  String.ofList ('"' :: (s.toList.flatMap escapeChar ++ ['"']))

mutual

/-- The value on one line. -/
def compact : Value → String
  | .null => "null"
  | .bool b => if b then "true" else "false"
  | .number n => n.text
  | .string s => quote s
  | .sequence items => "[" ++ ",".intercalate (compactItems items) ++ "]"
  | .mapping entries => "\x7b" ++ ",".intercalate (compactEntries entries) ++ "\x7d"

/-- The items, each on one line. -/
def compactItems : List Value → List String
  | [] => []
  | v :: vs => compact v :: compactItems vs

/-- The entries, each on one line. -/
def compactEntries : List (String × Value) → List String
  | [] => []
  | (k, v) :: es => (quote k ++ ":" ++ compact v) :: compactEntries es

end

/-- The beginning of a line that is `depth` levels deep. -/
def indent (depth : Nat) : String := String.ofList ('\n' :: List.replicate (2 * depth) ' ')

mutual

/-- The value over several lines, when it begins `depth` levels deep. -/
def prettyAt (depth : Nat) : Value → String
  | .null => "null"
  | .bool b => if b then "true" else "false"
  | .number n => n.text
  | .string s => quote s
  | .sequence items =>
    if items.isEmpty then "[]"
    else "[" ++ ",".intercalate (prettyItems (depth + 1) items) ++ indent depth ++ "]"
  | .mapping entries =>
    if entries.isEmpty then "\x7b\x7d"
    else "\x7b" ++ ",".intercalate (prettyEntries (depth + 1) entries) ++ indent depth ++ "\x7d"

/-- The items, each on a line of its own. -/
def prettyItems (depth : Nat) : List Value → List String
  | [] => []
  | v :: vs => (indent depth ++ prettyAt depth v) :: prettyItems depth vs

/-- The entries, each on a line of its own. -/
def prettyEntries (depth : Nat) : List (String × Value) → List String
  | [] => []
  | (k, v) :: es => (indent depth ++ quote k ++ ": " ++ prettyAt depth v) :: prettyEntries depth es

end

/-- The value over several lines. -/
def pretty (v : Value) : String := prettyAt 0 v

end ConfigTree.Json
