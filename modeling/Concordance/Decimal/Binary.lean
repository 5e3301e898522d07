/-!
# Binary floating-point numbers

A finite number of the 64-bit binary format, as an exact value: a sign, a significand below
`2 ^ 53` and a power of two. Every number has one representation, the one with the largest
significand its exponent range allows, so equality of representations is equality of numbers,
signed zeros apart. A decimal is read as the nearest such number, a tie going to the even
significand.
-/

namespace Concordance.Decimal

/-- Powers of natural numbers are those of core, whichever others are in scope. -/
scoped instance (priority := 1100) natPow : Pow Nat Nat := instPowNat

/-- Powers of integers are those of core, whichever others are in scope. -/
scoped instance (priority := 1100) intPow : Pow Int Nat := instPowNat

/-- The number `± significand * 2 ^ exponent`. -/
structure Binary where
  negative : Bool
  significand : Nat
  exponent : Int
  deriving DecidableEq, Repr, Inhabited

namespace Binary

/-- The smallest exponent of the format. -/
def minExponent : Int := -1074

/-- The largest exponent of the format. -/
def maxExponent : Int := 971

/-- Zero with a sign. -/
def zero (negative : Bool) : Binary := ⟨negative, 0, minExponent⟩

/-- Whether the number is zero of either sign. -/
def isZero (x : Binary) : Bool := x.significand == 0

/-- The whole number next to the value on the side of zero. -/
def truncate (x : Binary) : Int :=
  let size := if 0 ≤ x.exponent then x.significand * 2 ^ x.exponent.toNat
    else x.significand / 2 ^ (-x.exponent).toNat
  if x.negative then -(size : Int) else size

/-- Whether the value is a whole number. -/
def isWhole (x : Binary) : Bool :=
  0 ≤ x.exponent || x.significand % 2 ^ (-x.exponent).toNat == 0

/-- The quotient rounded to the nearest whole number, a half to the even one. -/
def roundDiv (num den : Nat) : Nat :=
  let q := num / den
  let r := num % den
  if 2 * r < den then q else if den < 2 * r then q + 1 else q + q % 2

/-- The quotient `num / den` over `2 ^ exponent`, rounded. -/
def scaled (num den : Nat) (exponent : Int) : Nat :=
  if 0 ≤ exponent then roundDiv num (den * 2 ^ exponent.toNat)
  else roundDiv (num * 2 ^ (-exponent).toNat) den

/-- The exponent at which a positive quotient has a significand of 53 bits before rounding. -/
def exponentFor (num den : Nat) : Int :=
  let guess : Int := (Nat.log2 num : Int) - (Nat.log2 den : Int) - 52
  let size : Nat × Nat := if 0 ≤ guess then (num, den * 2 ^ guess.toNat)
    else (num * 2 ^ (-guess).toNat, den)
  max minExponent (if size.1 / size.2 < 2 ^ (52 : Nat) then guess - 1 else guess)

/-- The number nearest to a positive quotient; none when it is out of the format's range. -/
def ofQuotient? (negative : Bool) (num den : Nat) : Option Binary :=
  let e := exponentFor num den
  let m := scaled num den e
  let x : Binary := if m = 2 ^ (53 : Nat) then ⟨negative, 2 ^ (52 : Nat), e + 1⟩
    else ⟨negative, m, e⟩
  if maxExponent < x.exponent then none else some x

/-- The number nearest to `± digits * 10 ^ power`; none when it is out of the format's range. -/
def ofDecimal? (negative : Bool) (digits : Nat) (power : Int) : Option Binary :=
  let size : Int := (Nat.toDigits 10 digits).length + power
  if digits = 0 ∨ size < -400 then some (zero negative)
  else if 400 < size then none
  else if 0 ≤ power then ofQuotient? negative (digits * 10 ^ power.toNat) 1
  else ofQuotient? negative digits (10 ^ (-power).toNat)

end Binary

end Concordance.Decimal
