import Calculator.Binary64.Rounding

/-!
# Decimal numbers

A decimal is `coefficient * 10 ^ exponent`, exact and never negative.  One value has many such
forms; `Decimal.normalize` picks the one whose coefficient does not end in zero.

`Decimal.toBinary64?` is correctly rounded, whatever the number of digits: it is `Binary64.nearest`
of the exact ratio, and fails when that is not finite.
-/

set_option autoImplicit false

namespace Calculator

/-- The number `coefficient * 10 ^ exponent`. -/
structure Decimal where
  coefficient : Nat
  exponent : Int
  deriving DecidableEq

namespace Decimal

/-- The numerator of the value as a fraction. -/
def numerator (d : Decimal) : Nat := d.coefficient * Nat.pow 10 d.exponent.toNat

/-- The denominator of the value as a fraction. -/
def denominator (d : Decimal) : Nat := Nat.pow 10 (-d.exponent).toNat

/-- The magnitude nearest to a decimal. -/
def magnitude (d : Decimal) : Nat := Binary64.nearest d.numerator d.denominator

/-- The binary number nearest to a decimal, if that is finite. -/
def toBinary64? (d : Decimal) : Option Binary64 :=
  if h : d.magnitude < Binary64.infinityMagnitude then
    some ⟨false, d.magnitude, Nat.lt_trans h (by decide)⟩
  else none

/-- Moves the zeros at the end of a coefficient into the exponent. -/
def trim (coefficient : Nat) (exponent : Int) : Decimal :=
  if h : coefficient ≠ 0 ∧ coefficient % 10 = 0 then trim (coefficient / 10) (exponent + 1)
  else ⟨coefficient, exponent⟩
termination_by coefficient
decreasing_by omega

/-- The form of a decimal whose coefficient does not end in zero. -/
def normalize (d : Decimal) : Decimal := trim d.coefficient d.exponent

theorem denominator_pos (d : Decimal) : 0 < d.denominator := Nat.pow_pos (by decide)

/-- A zero at the end of a coefficient may as well be counted in the exponent. -/
theorem magnitude_mul_ten (coefficient : Nat) (exponent : Int) :
    magnitude ⟨coefficient * 10, exponent⟩ = magnitude ⟨coefficient, exponent + 1⟩ := by
  refine Binary64.nearest_congr (denominator_pos _) (denominator_pos _) ?_
  simp only [numerator, denominator, Nat.pow_eq]
  rcases Int.lt_or_le exponent 0 with h | h
  · have h1 : (exponent + 1).toNat = 0 := by omega
    have h2 : exponent.toNat = 0 := by omega
    have h3 : (-exponent).toNat = (-(exponent + 1)).toNat + 1 := by omega
    rw [h1, h2, h3, Nat.pow_succ]
    simp only [Nat.pow_zero, Nat.mul_one, Nat.mul_assoc, Nat.mul_comm 10]
  · have h1 : (exponent + 1).toNat = exponent.toNat + 1 := by omega
    have h2 : (-(exponent + 1)).toNat = 0 := by omega
    have h3 : (-exponent).toNat = 0 := by omega
    rw [h1, h2, h3, Nat.pow_succ]
    simp only [Nat.pow_zero, Nat.mul_one, Nat.mul_assoc, Nat.mul_comm 10]

@[simp]
theorem magnitude_trim (coefficient : Nat) (exponent : Int) :
    (trim coefficient exponent).magnitude = magnitude ⟨coefficient, exponent⟩ := by
  fun_induction trim coefficient exponent with
  | case1 coefficient exponent h ih =>
    rw [ih, ← magnitude_mul_ten, Nat.div_mul_cancel (Nat.dvd_of_mod_eq_zero h.2)]
  | case2 => rfl

/-- The normal form of a decimal has the same value. -/
@[simp]
theorem magnitude_normalize (d : Decimal) : d.normalize.magnitude = d.magnitude :=
  magnitude_trim d.coefficient d.exponent

end Decimal
end Calculator
