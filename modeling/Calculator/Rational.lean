import Calculator.Decimal.Basic
import Mathlib.Algebra.Order.Field.Rat

/-!
# What numbers are worth

The values of numerals, of decimals and of binary numbers as fractions, and what it is for a number
to be the nearest to a fraction.  Nothing here knows of a way to read, to round or to print.

* A run of digits and dots is counted place by place: each digit before the dot counts ten times as
  much as the next, and each digit after it a tenth of what it would count one place further to the
  left.  There is no limit to the number of digits.
* The word of a binary number has a field of 11 bits for the exponent and one of 52 bits for the
  fraction.  Before the fraction there stands another bit, which is not stored: it is set unless the
  exponent is the least of all, and numbers without it are subnormal.  With that bit the fraction is
  the significand, and a number is its significand times a power of two.
-/

set_option autoImplicit false

namespace Calculator

/-! ## Numerals and decimals -/

/-- The number that a digit stands for. -/
def digitValue (c : Char) : Nat := c.toNat - '0'.toNat

/-- The value of digits before the dot. -/
def wholeValue (digits : List Char) : ℚ :=
  digits.foldl (fun value c => 10 * value + digitValue c) 0

/-- The value of digits after the dot. -/
def placesValue : List Char → ℚ
  | [] => 0
  | c :: places => (digitValue c + placesValue places) / 10

/-- The value of a numeral. -/
def numeralValue (run : List Char) : ℚ :=
  wholeValue (run.takeWhile (· != '.')) + placesValue ((run.dropWhile (· != '.')).drop 1)

/-- The value of a decimal. -/
def Decimal.toRat (d : Decimal) : ℚ := d.numerator / d.denominator

/-! ## Binary numbers -/

namespace Binary64

/-- The field of the exponent in a word. -/
def exponentField (x : Binary64) : Nat := x.magnitude / 2 ^ 52

/-- The field of the fraction in a word. -/
def fractionField (x : Binary64) : Nat := x.magnitude % 2 ^ 52

/-- The fraction and the bit before it, as a whole number. -/
def wholeSignificand (x : Binary64) : Nat :=
  if x.exponentField = 0 then x.fractionField else 2 ^ 52 + x.fractionField

/-- The value of a finite number.  Subnormal numbers have the exponent of the least normal ones. -/
def toRat (x : Binary64) : ℚ :=
  let absolute := (x.wholeSignificand : ℚ) * 2 ^ ((max x.exponentField 1 : ℤ) - 1075)
  if x.negative then -absolute else absolute

/-- No finite number is nearer to `q`; and if one of another value is as near, then the significand
of this one is even. -/
structure IsNearest (x : Binary64) (q : ℚ) : Prop where
  finite : x.IsFinite
  closest : ∀ y : Binary64, y.IsFinite → |x.toRat - q| ≤ |y.toRat - q|
  even : ∀ y : Binary64, y.IsFinite → y.toRat ≠ x.toRat → |y.toRat - q| = |x.toRat - q| →
    Even x.wholeSignificand

end Binary64
end Calculator
