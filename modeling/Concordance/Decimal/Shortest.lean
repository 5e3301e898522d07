import Concordance.Decimal.Binary

/-!
# The shortest decimal that reads back

A binary number is written with the fewest significant digits that still read back as the same
number; among the decimals of that length the nearest to the exact value is taken, and of two
equally near ones that with the even last digit. The search runs over lengths 1 to 17 in exact
arithmetic: on each grid of decimals only the two neighbours of the value can be in its rounding
interval, if any are.
-/

namespace Concordance.Decimal

/-- Significant digits and the place of the point: `0.digits * 10 ^ point`. -/
structure Digits where
  digits : List Char
  point : Int
  deriving DecidableEq, Repr

/-- An exact value and the two ends of its rounding interval, over one denominator. -/
structure Interval where
  low : Nat
  value : Nat
  high : Nat
  den : Nat
  closed : Bool

namespace Interval

/-- The reals that read as the number; its ends count exactly when the significand is even. -/
def ofBinary (x : Binary) : Interval :=
  let m := x.significand
  let up := 2 ^ x.exponent.toNat
  let step := if m = 2 ^ (52 : Nat) ∧ Binary.minExponent < x.exponent then 1 else 2
  { low := (4 * m - step) * up, value := 4 * m * up, high := (4 * m + 2) * up
    den := 4 * 2 ^ (-x.exponent).toNat, closed := m % 2 == 0 }

/-- Whether `n * 10 ^ grid` lies in the interval. -/
def holds (i : Interval) (n : Nat) (grid : Int) : Bool :=
  let p := n * 10 ^ grid.toNat * i.den
  let q := 10 ^ (-grid).toNat
  if i.closed then i.low * q ≤ p && p ≤ i.high * q else i.low * q < p && p < i.high * q

/-- The place of the point: the least `p` with the value below `10 ^ p`. -/
def point (i : Interval) : Int :=
  if i.den ≤ i.value then (Nat.toDigits 10 (i.value / i.den)).length
  else
    let places := ((List.range 400).find? fun j => i.den ≤ i.value * 10 ^ (j + 1)).getD 0
    Int.neg places

/-- The decimal on a grid that the interval holds, the nearer one of two. -/
def pick? (i : Interval) (grid : Int) : Option Nat :=
  let num := i.value * 10 ^ (-grid).toNat
  let den := i.den * 10 ^ grid.toNat
  let below := num / den
  match i.holds below grid, i.holds (below + 1) grid with
  | true, true => some (Binary.roundDiv num den)
  | true, false => some below
  | false, true => some (below + 1)
  | false, false => none

end Interval

/-- Digits without the zeros at their end. -/
def dropZeros (ds : List Char) : List Char := (ds.reverse.dropWhile (· = '0')).reverse

/-- The digits of a number written with a given count of them, if that many are enough. The upper
neighbour on the grid can be a power of ten, which has one digit more and needs only its first. -/
def digitsAt? (i : Interval) (count : Nat) : Option Digits :=
  (i.pick? (i.point - count)).map fun n =>
    let ds := Nat.toDigits 10 n
    ⟨dropZeros ds, i.point + (ds.length - count : Int)⟩

/-- The shortest digits of a number that is not zero. -/
def shortest (x : Binary) : Digits :=
  let i := Interval.ofBinary x
  ((List.range 17).findSome? fun k => digitsAt? i (k + 1)).getD ⟨['0'], 1⟩

end Concordance.Decimal
