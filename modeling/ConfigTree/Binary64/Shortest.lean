import ConfigTree.Binary64.Basic

/-!
# Shortest decimal text of a binary64 number

A binary64 number is written with the fewest decimal digits that read back as the same number, and
of the candidates of that length with the one nearest to it, a tie going to the even digit.

## The model

The reals that round to `m * 2 ^ q` form an interval, whose ends lie halfway to the neighbours and
belong to it exactly when `m` is even (`readsBack`). For one, two, … seventeen digits the two
neighbours of the number on the decimal grid of that many digits are tested (`onGrid`); the first
grid with a hit wins. Everything is exact arithmetic on natural numbers.

`Layout` holds the decisions of a written form that are not about digits.
-/

namespace ConfigTree

/-- The decimal `digits * 10 ^ exponent`. -/
structure Decimal where
  /-- The significant digits, as one number. -/
  digits : Nat
  /-- The power of ten that the last digit counts. -/
  exponent : Int
deriving DecidableEq, Repr

namespace Binary64

/-- Compares `a * 10 ^ i` with `n * 2 ^ j`, exactly. -/
def compareScaled (a : Nat) (i : Int) (n : Nat) (j : Int) : Ordering :=
  compare (a * raise 10 i * raise 2 (-j)) (n * raise 2 j * raise 10 (-i))

/-- Below a power of two the next number is half as far away as above it. -/
def narrowBelow (x : Binary64) : Bool :=
  x.mantissa == fullMantissa && minExponent < x.exponent

/-- Whether the decimal lies among the reals that round to the magnitude of `x`. -/
def readsBack (x : Binary64) (d : Decimal) : Bool :=
  let low := if x.narrowBelow then 4 * x.mantissa - 1 else 4 * x.mantissa - 2
  let high := 4 * x.mantissa + 2
  let closed := x.mantissa % 2 == 0
  let atLow := compareScaled d.digits d.exponent low (x.exponent - 2)
  let atHigh := compareScaled d.digits d.exponent high (x.exponent - 2)
  (atLow == .gt || (closed && atLow == .eq)) && (atHigh == .lt || (closed && atHigh == .eq))

/-- The least `k` among a few candidates with the magnitude of `x` below `10 ^ k`. -/
def decimalScale (x : Binary64) : Int :=
  let bits : Int := (x.mantissa.log2 : Int) + x.exponent
  let guess : Int := bits * 30103 / 100000
  let reaches (k : Int) : Bool := compareScaled 1 k x.mantissa x.exponent != .gt
  if reaches (guess + 1) then guess + 2
  else if reaches guess then guess + 1
  else if reaches (guess - 1) then guess
  else guess - 1

/-- The decimal with the trailing zeros of its digits, at most `fuel` of them, moved into the exponent. -/
def stripZeros : Nat → Decimal → Decimal
  | 0, d => d
  | fuel + 1, d =>
    if d.digits ≠ 0 ∧ d.digits % 10 = 0 then stripZeros fuel ⟨d.digits / 10, d.exponent + 1⟩ else d

/-- Of the two neighbours of `x` among the multiples of `10 ^ k`, the one that reads back; the nearer
of two, and the even one of two equally near. -/
def onGrid (x : Binary64) (k : Int) : Option Decimal :=
  let num := x.mantissa * raise 2 x.exponent * raise 10 (-k)
  let den := raise 2 (-x.exponent) * raise 10 k
  let below := num / den
  let lower : Decimal := ⟨below, k⟩
  let upper : Decimal := ⟨below + 1, k⟩
  match x.readsBack lower, x.readsBack upper with
  | true, true => if divToEven num den = below then some lower else some upper
  | true, false => some lower
  | false, true => some upper
  | false, false => none

/-- The exact decimal value of the magnitude. -/
def exactDecimal (x : Binary64) : Decimal :=
  if 0 ≤ x.exponent then ⟨x.mantissa * raise 2 x.exponent, 0⟩
  else ⟨x.mantissa * raise 5 (-x.exponent), x.exponent⟩

/-- The shortest decimal that reads back as the magnitude of `x`. -/
def shortest (x : Binary64) : Decimal :=
  if x.mantissa = 0 then ⟨0, 0⟩
  else
    let scale := x.decimalScale
    match (List.range 17).findSome? fun n : Nat => x.onGrid (scale - ((n : Int) + 1)) with
    | some d => stripZeros 17 d
    | none => x.exactDecimal

/-- How a number is laid out once its digits are chosen. -/
structure Layout where
  /-- The least exponent of the leading digit that is written without an exponent. -/
  plainFrom : Int
  /-- From this exponent of the leading digit on, an exponent is written. -/
  plainBelow : Int
  /-- Whether an exponent that is not negative is written with a plus sign. -/
  plusSign : Bool
deriving DecidableEq, Repr

/-- The digits of a decimal laid out, without a sign. A number written without an exponent has at
least one digit on either side of its point. -/
def layOut (style : Layout) (d : Decimal) : List Char :=
  let ds := Nat.toDigits 10 d.digits
  let lead : Int := d.exponent + ds.length - 1
  if d.digits = 0 then ['0', '.', '0']
  else if style.plainFrom ≤ lead ∧ lead < style.plainBelow then
    if 0 ≤ d.exponent then ds ++ List.replicate d.exponent.toNat '0' ++ ['.', '0']
    else if 0 ≤ lead then ds.take (lead.toNat + 1) ++ '.' :: ds.drop (lead.toNat + 1)
    else '0' :: '.' :: List.replicate (-lead - 1).toNat '0' ++ ds
  else
    let body := match ds with
      | [c] => [c]
      | c :: cs => c :: '.' :: cs
      | [] => []
    let sign := if lead < 0 then ['-'] else if style.plusSign then ['+'] else []
    body ++ 'e' :: sign ++ Nat.toDigits 10 lead.natAbs

/-- The text of a number: its sign, then its shortest digits laid out. -/
def render (style : Layout) (x : Binary64) : String :=
  String.ofList ((if x.negative then ['-'] else []) ++ layOut style x.shortest)

end Binary64

end ConfigTree
