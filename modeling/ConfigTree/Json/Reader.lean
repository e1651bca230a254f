import ConfigTree.Json.Numeral

/-!
# Reading JSON

JSON is read strictly: no comments, no trailing commas, no raw control characters in strings, no
lone surrogates, nothing but blanks after the value. Of a repeated key the first place and the last
value stay. Containers nested more than a hundred and twenty-seven deep are refused.

## The model

`value` reads one value from the front of the text and gives what follows it. Its fuel bounds the
number of characters that are looked at, and `parse` hands it the length of the text, which is
always enough. A value can be read in two ways: kept, or skimmed over. Skimming checks the grammar
only; it knows no limit of depth, does not ask whether a number is too large and takes a lone
surrogate for a character. `Record.read` uses it to cut an object or an array into the texts of its
parts, so that a reader of options can leave alone what it does not know.
-/

namespace ConfigTree.Json

/-- What reading a value is for. -/
inductive Purpose where
  /-- The value is wanted. -/
  | keep
  /-- Only the end of the value is wanted. -/
  | skim
deriving DecidableEq, Repr

/-- Containers may be nested this deep. -/
def depthLimit : Nat := 127

/-- A blank of the grammar: space, tab, line feed or carriage return. -/
def isBlank (c : Char) : Bool := c == ' ' || c == '\t' || c == '\n' || c == '\r'

/-- The text without the blanks that stand first. -/
def skipBlanks (cs : List Char) : List Char := cs.dropWhile isBlank

/-- The value of a hexadecimal digit. -/
def hexValue? (c : Char) : Option Nat :=
  if c.isDigit then some (c.toNat - '0'.toNat)
  else if 'a' ≤ c ∧ c ≤ 'f' then some (c.toNat - 'a'.toNat + 10)
  else if 'A' ≤ c ∧ c ≤ 'F' then some (c.toNat - 'A'.toNat + 10)
  else none

/-- The number that four hexadecimal digits write. -/
def hexUnit? (a b c d : Char) : Option Nat := do
  let a ← hexValue? a
  let b ← hexValue? b
  let c ← hexValue? c
  let d ← hexValue? d
  return ((a * 16 + b) * 16 + c) * 16 + d

/-- Whether a unit is the first half of a surrogate pair. -/
def isHighSurrogate (n : Nat) : Bool := 0xD800 ≤ n && n < 0xDC00

/-- Whether a unit is the second half of a surrogate pair. -/
def isLowSurrogate (n : Nat) : Bool := 0xDC00 ≤ n && n < 0xE000

/-- The character that a surrogate pair stands for. -/
def pairChar (high low : Nat) : Char :=
  Char.ofNat (0x10000 + (high - 0xD800) * 0x400 + (low - 0xDC00))

/-- What the letter after a backslash stands for. -/
def shortEscape? : Char → Option Char
  | '"' => some '"'
  | '\\' => some '\\'
  | '/' => some '/'
  | 'b' => some '\x08'
  | 'f' => some '\x0c'
  | 'n' => some '\n'
  | 'r' => some '\r'
  | 't' => some '\t'
  | _ => none

/-- The characters up to the closing quote, and the text after it. -/
def stringBody (purpose : Purpose) : List Char → Option (List Char × List Char)
  | [] => none
  | '"' :: rest => some ([], rest)
  | '\\' :: 'u' :: a :: b :: c :: d :: '\\' :: 'u' :: e :: f :: g :: h :: rest =>
    match hexUnit? a b c d with
    | none => none
    | some n =>
      if isHighSurrogate n && purpose == .keep then
        match hexUnit? e f g h with
        | none => none
        | some m =>
          if isLowSurrogate m then (stringBody purpose rest).map fun r => (pairChar n m :: r.1, r.2)
          else none
      else if isLowSurrogate n && purpose == .keep then none
      else
        (stringBody purpose ('\\' :: 'u' :: e :: f :: g :: h :: rest)).map fun r =>
          (Char.ofNat n :: r.1, r.2)
  | '\\' :: 'u' :: a :: b :: c :: d :: rest =>
    match hexUnit? a b c d with
    | none => none
    | some n =>
      if (isHighSurrogate n || isLowSurrogate n) && purpose == .keep then none
      else (stringBody purpose rest).map fun r => (Char.ofNat n :: r.1, r.2)
  | '\\' :: c :: rest =>
    match shortEscape? c with
    | none => none
    | some e => (stringBody purpose rest).map fun r => (e :: r.1, r.2)
  | c :: rest =>
    if c.toNat < 0x20 ∨ c = '\\' then none
    else (stringBody purpose rest).map fun r => (c :: r.1, r.2)

/-- The text after a word, when the text begins with it. -/
def dropWord : List Char → List Char → Option (List Char)
  | [], cs => some cs
  | w :: ws, c :: cs => if w = c then dropWord ws cs else none
  | _ :: _, [] => none

/-- The number at the beginning of the text. -/
def number (purpose : Purpose) (cs : List Char) : Option (Value × List Char) :=
  match Numeral.read cs with
  | none => none
  | some (l, rest) =>
    match purpose with
    | .skim => some (.null, rest)
    | .keep => l.value?.map fun n => (.number n, rest)

/-- The items up to a closing bracket, the first of them due now. -/
def items {α : Type} (item : List Char → Option (α × List Char)) :
    Nat → List Char → Option (List α × List Char)
  | 0, _ => none
  | fuel + 1, cs =>
    match item cs with
    | none => none
    | some (v, rest) =>
      match skipBlanks rest with
      | ',' :: rest => (items item fuel rest).map fun r => (v :: r.1, r.2)
      | ']' :: rest => some ([v], rest)
      | _ => none

/-- The entries up to a closing brace, the first of them due now. -/
def fields {α : Type} (purpose : Purpose) (item : List Char → Option (α × List Char)) :
    Nat → List Char → Option (List (String × α) × List Char)
  | 0, _ => none
  | fuel + 1, cs =>
    match skipBlanks cs with
    | '"' :: cs =>
      match stringBody purpose cs with
      | none => none
      | some (name, rest) =>
        match skipBlanks rest with
        | ':' :: rest =>
          match item rest with
          | none => none
          | some (v, rest) =>
            match skipBlanks rest with
            | ',' :: rest =>
              (fields purpose item fuel rest).map fun r => ((String.ofList name, v) :: r.1, r.2)
            | '\x7d' :: rest => some ([(String.ofList name, v)], rest)
            | _ => none
        | _ => none
    | _ => none

/-- The value at the beginning of the text, with containers nested at most `depth` deep, and the
text after it. -/
def value (purpose : Purpose) : Nat → Nat → List Char → Option (Value × List Char)
  | 0, _, _ => none
  | fuel + 1, depth, cs =>
    match skipBlanks cs with
    | [] => none
    | '"' :: rest =>
      (stringBody purpose rest).map fun r => (.string (String.ofList r.1), r.2)
    | '[' :: rest =>
      if depth = 0 then none
      else
        match skipBlanks rest with
        | ']' :: rest => some (.sequence [], rest)
        | rest =>
          (items (value purpose fuel (depth - 1)) rest.length rest).map fun r =>
            (.sequence r.1, r.2)
    | '\x7b' :: rest =>
      if depth = 0 then none
      else
        match skipBlanks rest with
        | '\x7d' :: rest => some (.mapping [], rest)
        | rest =>
          (fields purpose (value purpose fuel (depth - 1)) rest.length rest).map fun r =>
            (.mapping (Entries.ofList r.1), r.2)
    | 'n' :: rest => (dropWord ['u', 'l', 'l'] rest).map fun rest => (.null, rest)
    | 't' :: rest => (dropWord ['r', 'u', 'e'] rest).map fun rest => (.bool true, rest)
    | 'f' :: rest => (dropWord ['a', 'l', 's', 'e'] rest).map fun rest => (.bool false, rest)
    | cs => number purpose cs

/-- The value that a whole text writes, with containers nested at most `depth` deep. -/
def parseWithin (depth : Nat) (cs : List Char) : Option Value :=
  match value .keep (cs.length + 1) depth cs with
  | some (v, rest) => if (skipBlanks rest).isEmpty then some v else none
  | none => none

/-- The value that a text writes, if it is JSON. -/
def parse (text : String) : Option Value := parseWithin depthLimit text.toList

/-- An object or an array cut into the texts of its parts. -/
inductive Record where
  /-- The fields of an object, each name with the text of its value. -/
  | fields (named : List (String × List Char))
  /-- The texts of the items of an array. -/
  | items (texts : List (List Char))
deriving Repr

namespace Record

/-- The text of the value at the beginning, and what follows it. -/
def sliceValue (cs : List Char) : Option (List Char × List Char) :=
  (value .skim (cs.length + 1) cs.length cs).map fun r => (cs.take (cs.length - r.2.length), r.2)

/-- The record that a whole text writes. -/
def read (cs : List Char) : Option Record :=
  let parts : Option (Record × List Char) :=
    match skipBlanks cs with
    | '[' :: rest =>
      match skipBlanks rest with
      | ']' :: rest => some (.items [], rest)
      | rest => (Json.items sliceValue rest.length rest).map fun r => (.items r.1, r.2)
    | '\x7b' :: rest =>
      match skipBlanks rest with
      | '\x7d' :: rest => some (.fields [], rest)
      | rest => (Json.fields .keep sliceValue rest.length rest).map fun r => (.fields r.1, r.2)
    | _ => none
  match parts with
  | some (record, rest) => if (skipBlanks rest).isEmpty then some record else none
  | none => none

end Record

end ConfigTree.Json
