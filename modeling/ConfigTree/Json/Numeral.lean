import ConfigTree.Value

/-!
# Number literals

A number literal is an optional minus sign, an integer part without leading zeros, an optional
fraction and an optional exponent.

## The model

`Numeral` holds the digits of a literal, and `Numeral.value?` says which number it denotes. A
literal without fraction and exponent that fits sixty-four bits denotes an integer; minus zero and
everything else denotes a binary64 number. Its digits are first taken into an integer of sixty-four
bits for as long as they fit; that integer is rounded to binary64, and the result is multiplied or
divided by the power of ten, which rounds a second time. The result is thus not always the nearest
binary64 number to the literal. A literal beyond the largest binary64 number denotes nothing.
-/

namespace ConfigTree.Json

/-- The digits of a number literal. -/
structure Numeral where
  /-- Whether a minus sign stands in front. -/
  negative : Bool
  /-- The digits before the point. -/
  whole : List Char
  /-- The digits after the point; none without a point. -/
  fraction : List Char
  /-- The exponent: whether it is negative, and its digits. -/
  exponent : Option (Bool × List Char)
deriving DecidableEq, Repr

namespace Numeral

/-- The value of a digit. -/
def digitValue (c : Char) : Nat := c.toNat - '0'.toNat

/-- Takes digits into `n` for as long as the result fits sixty-four bits: the result, and how many
digits were taken. -/
def absorb (n : Nat) : List Char → Nat × Nat
  | [] => (n, 0)
  | c :: cs =>
    let next := 10 * n + digitValue c
    if Number.intLimit ≤ next then (n, 0)
    else
      let (result, taken) := absorb next cs
      (result, taken + 1)

/-- The number that a list of digits writes. -/
def natValue (ds : List Char) : Nat := ds.foldl (fun n c => 10 * n + digitValue c) 0

/-- The largest power of ten that is a finite binary64 number. -/
def powerLimit : Nat := 308

/-- The binary64 number nearest to a power of ten. -/
def powerOfTen (n : Nat) : Option Binary64 := Binary64.ofNat (Nat.pow 10 n)

/-- Divides by ten to the power of `n`, in steps of at most `powerLimit` places. -/
def divideByTens (x : Binary64) (n : Nat) : Option Binary64 :=
  if n ≤ powerLimit then (powerOfTen n).bind x.div
  else if x.isZero then some x
  else ((powerOfTen powerLimit).bind x.div).bind fun y => divideByTens y (n - powerLimit)
termination_by n
decreasing_by
  have : powerLimit = 308 := rfl
  omega

/-- The number times ten to the power of `e`. -/
def timesTens (x : Binary64) (e : Int) : Option Binary64 :=
  if e < 0 then divideByTens x e.natAbs
  else if e.toNat ≤ powerLimit then (powerOfTen e.toNat).bind x.mul
  else if x.isZero then some x
  else none

/-- Exponents from here on are too long to be counted. -/
def exponentBound : Nat := Nat.pow 2 31

/-- The binary64 number that the literal denotes. -/
def float? (l : Numeral) : Option Binary64 :=
  let (n, taken) := absorb 0 l.whole
  let before : Int := (l.whole.length : Int) - taken
  let (n, taken) := absorb n l.fraction
  let start : Int := before - taken
  let magnitude : Option Binary64 :=
    match l.exponent with
    | none => (Binary64.ofNat n).bind (timesTens · start)
    | some (down, ds) =>
      let e := natValue ds
      if exponentBound ≤ e then
        if n ≠ 0 ∧ !down then none else some (Binary64.zero false)
      else (Binary64.ofNat n).bind (timesTens · (if down then start - e else start + e))
  magnitude.map fun x => { x with negative := l.negative }

/-- The number that the literal denotes. -/
def value? (l : Numeral) : Option Number :=
  let n := natValue l.whole
  if l.fraction = [] ∧ l.exponent = none then
    if !l.negative ∧ n < Number.intLimit then some (.int n)
    else if l.negative ∧ 0 < n ∧ n ≤ Number.negativeLimit then some (.int (-(n : Int)))
    else l.float?.map .float
  else l.float?.map .float

/-- The leading digits and what follows them. -/
def spanDigits (cs : List Char) : List Char × List Char := cs.span Char.isDigit

/-- The exponent after its letter. -/
def readExponent (cs : List Char) : Option ((Bool × List Char) × List Char) :=
  let (down, cs) := match cs with
    | '+' :: cs => (false, cs)
    | '-' :: cs => (true, cs)
    | cs => (false, cs)
  let (ds, rest) := spanDigits cs
  if ds.isEmpty then none else some ((down, ds), rest)

/-- The literal at the beginning of the text, and what follows it. -/
def read (cs : List Char) : Option (Numeral × List Char) :=
  let (negative, cs) := match cs with
    | '-' :: cs => (true, cs)
    | cs => (false, cs)
  let (whole, cs) := match cs with
    | '0' :: cs => (['0'], cs)
    | cs => spanDigits cs
  if whole.isEmpty then none
  else
    let fraction : Option (List Char × List Char) :=
      match cs with
      | '.' :: cs =>
        let (ds, rest) := spanDigits cs
        if ds.isEmpty then none else some (ds, rest)
      | cs => some ([], cs)
    match fraction with
    | none => none
    | some (fraction, cs) =>
      match cs with
      | c :: rest =>
        if c = 'e' ∨ c = 'E' then
          (readExponent rest).map fun r => (⟨negative, whole, fraction, some r.1⟩, r.2)
        else some (⟨negative, whole, fraction, none⟩, cs)
      | [] => some (⟨negative, whole, fraction, none⟩, [])

end Numeral

end ConfigTree.Json
