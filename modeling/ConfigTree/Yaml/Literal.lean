import ConfigTree.Value
import ConfigTree.Yaml.Scalar

/-!
# Values that scalars write

A plain scalar, neither quoted nor a block, writes a value of a kind that its characters tell: null,
a truth value, an integer, a number with a fraction or an exponent, or else a text. A tag overrides
this.

## The model

Each reader here takes the characters of a scalar. An integer has a decimal, hexadecimal, octal or
binary form; decimal digits that begin with a superfluous zero are a text. An integer that does not
fit sixty-four bits is at fault as long as it fits twice as many, and is taken for a binary64 number
beyond. Infinities and not-a-numbers are null, since no value stands for them, and a literal
beyond the largest binary64 number is a text.
-/

namespace ConfigTree.Yaml

namespace Literal

/-- Whether the characters write null; nothing at all is null too, but only without a tag. -/
def isNull (cs : List Char) : Bool :=
  ["null".toList, "Null".toList, "NULL".toList, "~".toList].contains cs

/-- The truth value that the characters write. -/
def bool? (cs : List Char) : Option Bool :=
  if ["true".toList, "True".toList, "TRUE".toList].contains cs then some true
  else if ["false".toList, "False".toList, "FALSE".toList].contains cs then some false
  else none

/-- The characters after a sign, and whether it is a minus sign. -/
def unsigned : List Char → Bool × List Char
  | '-' :: cs => (true, cs)
  | '+' :: cs => (false, cs)
  | cs => (false, cs)

/-- Whether the characters are digits, perhaps after a sign, that begin with a superfluous zero. -/
def isPadded (cs : List Char) : Bool :=
  match (unsigned cs).2 with
  | '0' :: d :: ds => (d :: ds).all Char.isDigit
  | _ => false

/-- The base that the first two characters announce, and the digits after them. -/
def base? : List Char → Option (Nat × List Char)
  | '0' :: 'x' :: ds => some (16, ds)
  | '0' :: 'o' :: ds => some (8, ds)
  | '0' :: 'b' :: ds => some (2, ds)
  | _ => none

/-- The number that digits write, after `n`. -/
def digits? (base n : Nat) : List Char → Option Nat
  | [] => some n
  | c :: cs =>
    (Scalar.hexValue? c).bind fun d => if d < base then digits? base (base * n + d) cs else none

/-- The number that at least one digit writes. -/
def natural? (base : Nat) (cs : List Char) : Option Nat :=
  if cs = [] then none else digits? base 0 cs

/-- Integers of at most 128 bits stay below this number. -/
def wideLimit : Nat := Nat.pow 2 128

/-- The integer that the characters write, when it has at most 128 bits. -/
def int? (cs : List Char) : Option Int :=
  let (negative, body) := unsigned cs
  let based : Option Nat := (base? body).bind fun r => natural? r.1 r.2
  let found : Option Nat := if based.isSome then based else if isPadded cs then none else natural? 10 body
  found.bind fun n =>
    if negative then if n ≤ wideLimit / 2 then some (-(n : Int)) else none
    else if n < wideLimit then some (n : Int) else none

/-- An integer as a value, when it fits sixty-four bits. -/
def ofInt (n : Int) : Option Value :=
  if -(Number.negativeLimit : Int) ≤ n ∧ n < (Number.intLimit : Int) then some (.number (.int n))
  else none

/-- Powers of ten beyond this one, and below its reciprocal, are not represented. -/
def exponentLimit : Nat := 400

/-- The binary64 number nearest to `digits * 10 ^ exponent`, where `width` is the number of digits. -/
def nearest (negative : Bool) (digits width : Nat) (exponent : Int) : Option Binary64 :=
  if digits = 0 ∨ exponent + width < -exponentLimit then some (.zero negative)
  else if (exponentLimit : Int) < exponent then none
  else Binary64.ofDecimal negative digits exponent

/-- An exponent with its letter, or nothing at all, which is the exponent zero. -/
def exponent? : List Char → Option Int
  | [] => some 0
  | c :: cs =>
    if c = 'e' ∨ c = 'E' then
      let (negative, ds) := unsigned cs
      (natural? 10 ds).map fun n => if negative then -(n : Int) else n
    else none

/-- The binary64 number that the characters write; none when they write no number or too large a
one. Digits may stand on either side of the point, and must on one. -/
def decimal? (cs : List Char) : Option Binary64 :=
  let (negative, cs) := unsigned cs
  let whole := cs.takeWhile Char.isDigit
  let cs := cs.drop whole.length
  let (fraction, cs) := match cs with
    | '.' :: cs => cs.span Char.isDigit
    | cs => ([], cs)
  match natural? 10 (whole ++ fraction), exponent? cs with
  | some n, some e => nearest negative n (whole ++ fraction).length (e - fraction.length)
  | _, _ => none

/-- Whether the characters write an infinity or a not-a-number. -/
def isUnbounded (cs : List Char) : Bool :=
  let infinities := [".inf".toList, ".Inf".toList, ".INF".toList]
  infinities.contains (unsigned cs).2 || [".nan".toList, ".NaN".toList, ".NAN".toList].contains cs

/-- The value that the characters write as a number with a fraction or an exponent. -/
def float? (cs : List Char) : Option Value :=
  if isUnbounded cs then some .null else (decimal? cs).map fun x => .number (.float x)

/-- The value of a plain scalar without a tag. -/
def plain? (cs : List Char) : Option Value :=
  if cs = [] ∨ isNull cs then some .null
  else
    match bool? cs with
    | some b => some (.bool b)
    | none =>
      match int? cs with
      | some n => ofInt n
      | none =>
        match if isPadded cs then none else float? cs with
        | some v => some v
        | none => some (.string (String.ofList cs))

/-- A tag of the core kinds. -/
def coreTag (name : String) : List Char := ("tag:yaml.org,2002:" ++ name).toList

/-- The value of a scalar. The tags of the core kinds require their kind, other standard tags make it a
text, and tags that a text defines for itself have no value. -/
def value? (tag : Option (List Char)) (cs : List Char) (plain : Bool) : Option Value :=
  match tag with
  | none => if plain then plain? cs else some (.string (String.ofList cs))
  | some tag =>
    if tag.head? = some '!' then none
    else if tag = coreTag "bool" then (bool? cs).map .bool
    else if tag = coreTag "int" then (int? cs).bind ofInt
    else if tag = coreTag "float" then float? cs
    else if tag = coreTag "null" then if isNull cs then some .null else none
    else some (.string (String.ofList cs))

end Literal

end ConfigTree.Yaml
