import Concordance.Decimal.Shortest

/-!
# Layouts of decimals

How the shortest digits of a number are set out: positionally while the point is near the digits,
else with an exponent. Two layouts are in use, one for messages and one for stored snapshots.
-/

namespace Concordance.Decimal

/-- The choices in setting out a decimal. -/
structure Layout where
  /-- The smallest place of the point that is written positionally. -/
  firstPoint : Int
  /-- The largest place of the point that is written positionally. -/
  lastPoint : Int
  /-- The least number of digits of an exponent. -/
  exponentWidth : Nat

/-- Messages write the numbers from 0.0001 to 10^16 positionally and exponents as in `1e+16`
and `1e-05`. -/
def Layout.message : Layout := ⟨-3, 16, 2⟩

/-- Snapshots write the numbers from 0.00001 to 10^16 positionally and exponents as in `1e+16`
and `1e-6`. -/
def Layout.snapshot : Layout := ⟨-4, 16, 1⟩

/-- A run of zeros. -/
def zeros (n : Nat) : List Char := List.replicate n '0'

/-- An exponent with its letter, its sign, which is never left out, and its padding. -/
def Layout.exponent (l : Layout) (e : Int) : List Char :=
  let ds := Nat.toDigits 10 e.natAbs
  'e' :: (if e < 0 then '-' else '+') :: zeros (l.exponentWidth - ds.length) ++ ds

/-- Digits set out by a layout; a point is always followed by a digit. -/
def Layout.digits (l : Layout) (d : Digits) : List Char :=
  let n : Int := d.digits.length
  if d.point < l.firstPoint ∨ l.lastPoint < d.point then
    let tail := d.digits.drop 1
    d.digits.take 1 ++ (if tail.isEmpty then [] else '.' :: tail) ++ l.exponent (d.point - 1)
  else if d.point ≤ 0 then '0' :: '.' :: zeros (-d.point).toNat ++ d.digits
  else if d.point < n then d.digits.take d.point.toNat ++ '.' :: d.digits.drop d.point.toNat
  else d.digits ++ zeros (d.point - n).toNat ++ ['.', '0']

/-- The text of a number. -/
def Layout.text (l : Layout) (x : Binary) : List Char :=
  let sign := if x.negative then ['-'] else []
  if x.isZero then sign ++ "0.0".toList else sign ++ l.digits (shortest x)

end Concordance.Decimal
