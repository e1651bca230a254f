/-!
# Finite binary64 numbers

Numbers with a fraction or an exponent, and integers too large for sixty-four bits, are held as
finite binary64 numbers: a sign and a magnitude `mantissa * 2 ^ exponent`.

## The model

A magnitude has one representation: the exponent is at least `-1074` and the mantissa below
`2 ^ 53`, and unless the exponent is `-1074` the mantissa has its full fifty-three bits. All
arithmetic goes through `round`, which takes an exact fraction to the nearest representable
magnitude, a tie going to the even mantissa, and gives nothing when the fraction is too large.
Infinities and not-a-numbers are not represented. Zero has a sign.
-/

namespace ConfigTree

/-- A finite binary64 number. -/
structure Binary64 where
  /-- The sign; zero has one too. -/
  negative : Bool
  /-- The significant bits, at most fifty-three. -/
  mantissa : Nat
  /-- The power of two that the mantissa counts. -/
  exponent : Int
deriving DecidableEq, Repr

namespace Binary64

/-- The least exponent. -/
def minExponent : Int := -1074

/-- The largest exponent of a finite number. -/
def maxExponent : Int := 971

/-- Zero with a sign. -/
def zero (negative : Bool) : Binary64 := ⟨negative, 0, minExponent⟩

/-- Whether the number is zero, of either sign. -/
def isZero (x : Binary64) : Bool := x.mantissa == 0

/-- A number to the power of `e`; one when `e` is negative. -/
def raise (base : Nat) (e : Int) : Nat := Nat.pow base e.toNat

/-- The least full mantissa. -/
def fullMantissa : Nat := Nat.pow 2 52

/-- The quotient rounded to the nearest integer, a tie going to the even one. -/
def divToEven (num den : Nat) : Nat :=
  let q := num / den
  let r := num % den
  if den < 2 * r ∨ (2 * r = den ∧ q % 2 = 1) then q + 1 else q

/-- The power of two that the mantissa of `num / den` counts, before rounding. -/
def scaleOf (num den : Nat) : Int :=
  let guess : Int := (num.log2 : Int) - (den.log2 : Int) - 52
  let short := num * raise 2 (-guess) < den * raise 2 guess * fullMantissa
  max minExponent (if short then guess - 1 else guess)

/-- The binary64 number nearest to `num / den`; nothing when that is beyond the largest one. -/
def round (negative : Bool) (num den : Nat) : Option Binary64 :=
  if num = 0 then some (zero negative)
  else
    let e := scaleOf num den
    let m := divToEven (num * raise 2 (-e)) (den * raise 2 e)
    let (m, e) := if m = 2 * fullMantissa then (fullMantissa, e + 1) else (m, e)
    if maxExponent < e then none else some ⟨negative, m, e⟩

/-- The binary64 number nearest to `digits * 10 ^ exponent`. -/
def ofDecimal (negative : Bool) (digits : Nat) (exponent : Int) : Option Binary64 :=
  round negative (digits * raise 10 exponent) (raise 10 (-exponent))

/-- The binary64 number nearest to a natural number. -/
def ofNat (n : Nat) : Option Binary64 := round false n 1

/-- The product, rounded; nothing on overflow. -/
def mul (x y : Binary64) : Option Binary64 :=
  let e := x.exponent + y.exponent
  round (x.negative != y.negative) (x.mantissa * y.mantissa * raise 2 e) (raise 2 (-e))

/-- The quotient, rounded; nothing on overflow. -/
def div (x y : Binary64) : Option Binary64 :=
  let e := x.exponent - y.exponent
  round (x.negative != y.negative) (x.mantissa * raise 2 e) (y.mantissa * raise 2 (-e))

end Binary64

end ConfigTree
