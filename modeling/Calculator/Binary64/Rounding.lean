import Calculator.Binary64.Basic

/-!
# Rounding to the nearest binary number

Finite magnitudes are whole multiples of one unit, `2 ^ -1074`.  `units m` says which multiple: a
magnitude has a *scale*, the power of two by which its neighbours lie apart, and a *significand*
below `2 ^ 53`, and its value is `significand * 2 ^ scale` units.

`nearest n d` is the magnitude whose value is nearest to `n / d`; of two that are equally near it is
the even one.  It is one division in natural numbers: with `n / d` counted in units, the scale of
the answer is the least one at which the significand fits, and the significand is the quotient
rounded at that scale.  A significand that rounds up to `2 ^ 53` needs no care, because the next
magnitude is the one with the least significand at the next scale.

Ratios that are too large for a finite number get a magnitude of `infinityMagnitude` or more.

* `nearest_congr` — rounding depends on the value of a fraction alone.
* `nearest_numerator` — a value that is a magnitude's own is rounded to it.
-/

set_option autoImplicit false

namespace Calculator
namespace Binary64

/-- Finite magnitudes are multiples of one unit, which is 1 halved this often. -/
def unitPlace : Nat := 1074

/-- The number of magnitudes between a power of two and the next, `2 ^ 52`. -/
def binade : Nat := 0x10000000000000

/-- The power of two, in units, by which the neighbours of a magnitude lie apart. -/
def scale (magnitude : Nat) : Nat := magnitude / binade - 1

/-- The value of a magnitude as a multiple of its scale. -/
def significand (magnitude : Nat) : Nat := magnitude - scale magnitude * binade

/-- The value of a magnitude as a multiple of the unit. -/
def units (magnitude : Nat) : Nat := significand magnitude <<< scale magnitude

/-- The whole number that a magnitude is when its value is doubled `halvings` times. -/
def numerator (magnitude : Nat) : Nat :=
  significand magnitude <<< (scale magnitude - unitPlace)

/-- How many times `numerator` has to be halved to give the value of a magnitude. -/
def halvings (magnitude : Nat) : Nat := unitPlace - scale magnitude

/-- The natural number nearest to `n / d`, and of two the even one. -/
def roundHalfEven (n d : Nat) : Nat :=
  if 2 * (n % d) < d ∨ (2 * (n % d) = d ∧ n / d % 2 = 0) then n / d else n / d + 1

/-- The magnitude nearest to `n / d`, and of two the even one. -/
def nearest (n d : Nat) : Nat :=
  let inUnits := n <<< unitPlace
  let scale := Nat.log2 (inUnits / d) - 52
  -- the constant comes first, so that nothing unfolds this product along it
  binade * scale + roundHalfEven inUnits (d <<< scale)

/-! ## Scale and significand -/

theorem scale_mul_add_significand (magnitude : Nat) :
    scale magnitude * binade + significand magnitude = magnitude := by
  simp only [significand, scale, binade]
  omega

theorem significand_lt (magnitude : Nat) : significand magnitude < 2 * binade := by
  simp only [significand, scale, binade]
  omega

theorem le_significand {magnitude : Nat} (h : scale magnitude ≠ 0) :
    binade ≤ significand magnitude := by
  simp only [significand, scale, binade] at *
  omega

theorem log2_units (magnitude : Nat) : Nat.log2 (units magnitude) - 52 = scale magnitude := by
  have hlt := significand_lt magnitude
  simp only [binade] at hlt
  rcases Nat.eq_zero_or_pos (units magnitude) with h0 | hpos
  · have : scale magnitude = 0 := by
      apply Classical.byContradiction
      intro h
      have hle := le_significand h
      have : 0 < units magnitude := by
        rw [units, Nat.shiftLeft_eq]
        exact Nat.mul_pos (Nat.lt_of_lt_of_le (by decide) hle) (Nat.two_pow_pos _)
      omega
    simp [h0, this]
  · have hne : units magnitude ≠ 0 := by omega
    have hup : Nat.log2 (units magnitude) < 53 + scale magnitude := by
      rw [Nat.log2_lt hne, units, Nat.shiftLeft_eq, Nat.pow_add]
      exact Nat.mul_lt_mul_of_pos_right hlt (Nat.two_pow_pos _)
    by_cases hs : scale magnitude = 0
    · omega
    · have hle := le_significand hs
      simp only [binade] at hle
      have : 52 + scale magnitude ≤ Nat.log2 (units magnitude) := by
        rw [Nat.le_log2 hne, units, Nat.shiftLeft_eq, Nat.pow_add]
        exact Nat.mul_le_mul_right _ hle
      omega

/-! ## Rounding -/

theorem roundHalfEven_mul {d : Nat} (hd : 0 < d) (m : Nat) : roundHalfEven (m * d) d = m := by
  simp [roundHalfEven, Nat.mul_div_cancel m hd, hd]

theorem roundHalfEven_mul_mul (n d : Nat) {k : Nat} (hk : 0 < k) :
    roundHalfEven (n * k) (d * k) = roundHalfEven n d := by
  have h1 : 2 * (n % d * k) < d * k ↔ 2 * (n % d) < d := by
    rw [← Nat.mul_assoc, Nat.mul_lt_mul_right hk]
  have h2 : 2 * (n % d * k) = d * k ↔ 2 * (n % d) = d := by
    rw [← Nat.mul_assoc, Nat.mul_left_inj (by omega)]
  simp only [roundHalfEven, Nat.mul_mod_mul_right, Nat.mul_div_mul_right _ _ hk, h1, h2]

theorem nearest_mul_mul (n d : Nat) {k : Nat} (hk : 0 < k) :
    nearest (n * k) (d * k) = nearest n d := by
  have hn : (n * k) <<< unitPlace = n <<< unitPlace * k := by
    simp only [Nat.shiftLeft_eq, Nat.mul_right_comm]
  have hd : ∀ scale, (d * k) <<< scale = d <<< scale * k := fun scale => by
    simp only [Nat.shiftLeft_eq, Nat.mul_right_comm]
  simp only [nearest, hn, hd, Nat.mul_div_mul_right _ _ hk, roundHalfEven_mul_mul _ _ hk]

/-- Two fractions of one value are rounded to the same magnitude. -/
theorem nearest_congr {n d n' d' : Nat} (hd : 0 < d) (hd' : 0 < d') (h : n * d' = n' * d) :
    nearest n d = nearest n' d' := by
  rw [← nearest_mul_mul n d hd', h, Nat.mul_comm d d', nearest_mul_mul n' d' hd]

/-- What is halved to give the value of a magnitude has that value in units. -/
theorem numerator_shiftLeft (magnitude : Nat) :
    numerator magnitude <<< unitPlace = units magnitude <<< halvings magnitude := by
  have key : scale magnitude - unitPlace + unitPlace = scale magnitude + halvings magnitude := by
    simp only [halvings]; omega
  rw [units, numerator, ← Nat.shiftLeft_add, ← Nat.shiftLeft_add, key]

/-- **The magnitude nearest to the value of a magnitude is that magnitude.** -/
theorem nearest_numerator (magnitude : Nat) :
    nearest (numerator magnitude) (1 <<< halvings magnitude) = magnitude := by
  have hd : 0 < 2 ^ halvings magnitude := Nat.two_pow_pos _
  have hsc : units magnitude * 2 ^ halvings magnitude =
      significand magnitude * (2 ^ halvings magnitude * 2 ^ scale magnitude) := by
    rw [units, Nat.shiftLeft_eq, Nat.mul_assoc, Nat.mul_comm (2 ^ scale magnitude)]
  simp only [nearest]
  rw [numerator_shiftLeft, Nat.shiftLeft_eq, Nat.one_shiftLeft, Nat.mul_div_cancel _ hd, log2_units,
    Nat.shiftLeft_eq, hsc, roundHalfEven_mul (Nat.mul_pos hd (Nat.two_pow_pos _)), Nat.mul_comm,
    scale_mul_add_significand]

end Binary64
end Calculator
