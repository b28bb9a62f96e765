import Calculator.Rational
import Mathlib.Algebra.Order.Field.Basic
import Mathlib.Algebra.Order.Ring.Abs
import Mathlib.Data.Nat.Cast.Order.Field
import Mathlib.Order.Monotone.Basic
import Mathlib.Tactic.FieldSimp
import Mathlib.Tactic.Linarith
import Mathlib.Tactic.Ring

/-!
# Rounding is exact

`Binary64.nearest` divides whole numbers and looks at a remainder.  This file shows that what comes
of it is the number that is nearest to the fraction, of two the even one, and that fractions are too
large exactly from half way between the largest finite number and the power of two after it.

Everything is counted in units.  There a magnitude is a whole number on its scale (`units_eq`), and
larger magnitudes have larger values (`strictMono_units`).

* `isHalfEven_roundHalfEven` — on one scale, rounding is rounding to whole numbers.
* `isNearestInUnits_nearest` — no other scale has anything nearer: what is on a larger one is on
  this one too, and what lies below it is farther away than the least number on it.
* `IsNearestInUnits.lt_infinityMagnitude_iff` — the tie at the upper end goes to the power of two,
  because the largest finite magnitude is odd.
* `IsNearestInUnits.isNearest`, `IsNearest.unique` — the same of numbers with a sign.

Subnormal numbers need no words of their own.  They are the numbers on the least scale whose
significand is small for it, and on that scale it may be.
-/

set_option autoImplicit false

namespace Calculator
namespace Binary64

/-! ## Rounding to whole numbers -/

/-- The whole number is at most one half away from `x`, and even if it is one half. -/
structure IsHalfEven (x : ℚ) (k : Nat) : Prop where
  near : |(k : ℚ) - x| ≤ 1 / 2
  even : |(k : ℚ) - x| = 1 / 2 → Even k

/-- A fraction is a whole number and what is left over. -/
theorem div_eq_add_mod_div (n : Nat) {d : Nat} (hd : 0 < d) :
    (n : ℚ) / d = (n / d : Nat) + (n % d : Nat) / (d : ℚ) := by
  have hpos : (0 : ℚ) < d := Nat.cast_pos.2 hd
  have hn : (n : ℚ) = d * (n / d : Nat) + (n % d : Nat) := by
    exact_mod_cast (Nat.div_add_mod n d).symm
  rw [eq_comm, add_div' _ _ _ hpos.ne', mul_comm, ← hn]

theorem isHalfEven_roundHalfEven (n : Nat) {d : Nat} (hd : 0 < d) :
    IsHalfEven (n / d) (roundHalfEven n d) := by
  have hpos : (0 : ℚ) < d := Nat.cast_pos.2 hd
  have hsplit := div_eq_add_mod_div n hd
  have hnonneg : 0 ≤ ((n % d : Nat) : ℚ) / d := by positivity
  have hlt : ((n % d : Nat) : ℚ) / d < 1 := by
    rw [div_lt_one hpos]
    exact_mod_cast Nat.mod_lt n hd
  rw [roundHalfEven]
  split
  · rename_i h
    have hhalf : ((n % d : Nat) : ℚ) / d ≤ 1 / 2 := by
      rw [div_le_div_iff₀ hpos two_pos]
      exact_mod_cast (by omega : n % d * 2 ≤ 1 * d)
    have hdist : |((n / d : Nat) : ℚ) - n / d| = (n % d : Nat) / (d : ℚ) := by
      rw [hsplit, sub_add_cancel_left, abs_neg, abs_of_nonneg hnonneg]
    refine ⟨hdist.trans_le hhalf, fun heq => ?_⟩
    rw [hdist, div_eq_div_iff hpos.ne' two_ne_zero] at heq
    have htie : n % d * 2 = 1 * d := by exact_mod_cast heq
    exact Nat.even_iff.2 (by omega)
  · rename_i h
    have hhalf : 1 / 2 ≤ ((n % d : Nat) : ℚ) / d := by
      rw [div_le_div_iff₀ two_pos hpos]
      exact_mod_cast (by omega : 1 * d ≤ n % d * 2)
    have hdist : |((n / d + 1 : Nat) : ℚ) - n / d| = 1 - (n % d : Nat) / (d : ℚ) := by
      rw [hsplit, Nat.cast_add, Nat.cast_one, add_sub_add_left_eq_sub, abs_of_pos (by linarith)]
    refine ⟨by linarith, fun heq => ?_⟩
    have hr : ((n % d : Nat) : ℚ) / d = 1 / 2 := by linarith
    rw [div_eq_div_iff hpos.ne' two_ne_zero] at hr
    have htie : n % d * 2 = 1 * d := by exact_mod_cast hr
    exact Nat.even_iff.2 (by omega)

section HalfEven

variable {x : ℚ} {k j : Nat}

/-- All other whole numbers are at least one half away. -/
theorem IsHalfEven.half_le (h : IsHalfEven x k) (hne : j ≠ k) : 1 / 2 ≤ |(j : ℚ) - x| := by
  have hapart : (1 : ℚ) ≤ |(j : ℚ) - k| := by
    have : (1 : ℤ) ≤ |(j : ℤ) - k| := Int.one_le_abs (by omega)
    exact_mod_cast this
  have htriangle := abs_sub_le (j : ℚ) x k
  have hnear := h.near
  rw [abs_sub_comm] at hnear
  linarith

theorem IsHalfEven.closest (h : IsHalfEven x k) (j : Nat) : |(k : ℚ) - x| ≤ |(j : ℚ) - x| := by
  rcases eq_or_ne j k with rfl | hne
  · exact le_rfl
  · exact h.near.trans (h.half_le hne)

theorem IsHalfEven.even_of_tie (h : IsHalfEven x k) (hne : j ≠ k)
    (htie : |(j : ℚ) - x| = |(k : ℚ) - x|) : Even k :=
  h.even (le_antisymm h.near (htie ▸ h.half_le hne))

end HalfEven

/-! ## Magnitudes on a scale -/

/-- A whole number on a scale is the value of a magnitude, if it is not too large for the scale and
not too small for it either. -/
theorem units_mul_add {scale k : Nat} (hle : k ≤ 2 * binade) (hge : scale ≠ 0 → binade ≤ k) :
    units (binade * scale + k) = k * 2 ^ scale := by
  rcases Nat.lt_or_ge k (2 * binade) with hlt | hge'
  · have hscale : Binary64.scale (binade * scale + k) = scale := by
      simp only [Binary64.scale, binade] at *
      omega
    have hsignificand : significand (binade * scale + k) = k := by
      rw [significand, hscale, Nat.mul_comm, Nat.add_sub_cancel_left]
    rw [units, hscale, hsignificand, Nat.shiftLeft_eq]
  · -- the least significand of the next scale
    obtain rfl : k = 2 * binade := le_antisymm hle hge'
    have hscale : Binary64.scale (binade * scale + 2 * binade) = scale + 1 := by
      simp only [Binary64.scale, binade]
      omega
    have hsignificand : significand (binade * scale + 2 * binade) = binade := by
      rw [significand, hscale]
      simp only [binade]
      omega
    rw [units, hscale, hsignificand, Nat.shiftLeft_eq, pow_succ]
    ring

theorem units_eq (m : Nat) : units m = significand m * 2 ^ scale m := by
  rw [units, Nat.shiftLeft_eq]

/-- The next magnitude is one more on the scale. -/
theorem units_succ (m : Nat) : units (m + 1) = (significand m + 1) * 2 ^ scale m := by
  have hm := scale_mul_add_significand m
  have hlt := significand_lt m
  have hnext : m + 1 = binade * scale m + (significand m + 1) := by
    rw [Nat.mul_comm]
    omega
  rw [hnext]
  exact units_mul_add hlt fun h => Nat.le_succ_of_le (le_significand h)

/-- **The order of magnitudes is that of their values.** -/
theorem strictMono_units : StrictMono units := by
  refine strictMono_nat_of_lt_succ fun m => ?_
  rw [units_succ, units_eq]
  exact Nat.mul_lt_mul_of_pos_right (Nat.lt_succ_self _) (Nat.two_pow_pos _)

/-- The value of a magnitude is a whole number on a scale, or it lies below all significands that
the scale has for itself. -/
theorem exists_units_eq_or_lt (m s : Nat) :
    (∃ j, units m = j * 2 ^ s) ∨ (s ≠ 0 ∧ units m < binade * 2 ^ s) := by
  rcases Nat.lt_or_ge (scale m) s with hlt | hge
  · refine .inr ⟨by omega, ?_⟩
    calc units m = significand m * 2 ^ scale m := units_eq m
      _ < 2 * binade * 2 ^ scale m :=
        Nat.mul_lt_mul_of_pos_right (significand_lt m) (Nat.two_pow_pos _)
      _ = binade * 2 ^ (scale m + 1) := by ring
      _ ≤ binade * 2 ^ s := Nat.mul_le_mul_left _ (Nat.pow_le_pow_right two_pos hlt)
  · refine .inl ⟨significand m * 2 ^ (scale m - s), ?_⟩
    rw [units_eq, mul_assoc, ← pow_add, Nat.sub_add_cancel hge]

/-! ## Rounding to magnitudes -/

/-- Counted in units, no magnitude has a value nearer to `u`; and if another is as near, then this
one is even. -/
structure IsNearestInUnits (u : ℚ) (m : Nat) : Prop where
  closest : ∀ m', |(units m : ℚ) - u| ≤ |(units m' : ℚ) - u|
  even : ∀ m', m' ≠ m → |(units m' : ℚ) - u| = |(units m : ℚ) - u| → Even m

/-- The scale on which a fraction is rounded: the significand fits, and it is not small for the
scale unless the scale is the least of all. -/
theorem quotient_bounds (q : Nat) :
    q / 2 ^ (Nat.log2 q - 52) < 2 * binade ∧
      (Nat.log2 q - 52 ≠ 0 → binade ≤ q / 2 ^ (Nat.log2 q - 52)) := by
  have hbinade : binade = 2 ^ 52 := by decide
  constructor
  · rw [Nat.div_lt_iff_lt_mul (Nat.two_pow_pos _), hbinade]
    calc q < 2 ^ (Nat.log2 q + 1) := Nat.lt_log2_self
      _ ≤ 2 ^ (53 + (Nat.log2 q - 52)) := Nat.pow_le_pow_right two_pos (by omega)
      _ = 2 * 2 ^ 52 * 2 ^ (Nat.log2 q - 52) := by ring
  · intro h
    have hq : q ≠ 0 := by
      rintro rfl
      exact h rfl
    rw [Nat.le_div_iff_mul_le (Nat.two_pow_pos _), hbinade, ← pow_add,
      Nat.add_sub_cancel' (by omega)]
    exact Nat.log2_self_le hq

/-- What rounding does: on some scale the fraction is rounded to a whole number, which is the
significand of the answer. -/
theorem exists_nearest_eq (n : Nat) {d : Nat} (hd : 0 < d) :
    ∃ s k, nearest n d = binade * s + k ∧ units (nearest n d) = k * 2 ^ s ∧
      IsHalfEven (n * 2 ^ unitPlace / d / 2 ^ s) k ∧
      (s ≠ 0 → (binade : ℚ) ≤ n * 2 ^ unitPlace / d / 2 ^ s) := by
  obtain ⟨hlt, hge⟩ := quotient_bounds (n <<< unitPlace / d)
  rw [Nat.div_div_eq_div_mul] at hlt hge
  -- the scale and the significand that rounding chooses
  set s := Nat.log2 (n <<< unitPlace / d) - 52 with hs
  set k := roundHalfEven (n <<< unitPlace) (d * 2 ^ s) with hk
  have hnearest : nearest n d = binade * s + k := by
    rw [nearest, hk, hs, Nat.shiftLeft_eq d]
  have hkle : k ≤ n <<< unitPlace / (d * 2 ^ s) + 1 := by
    rw [hk, roundHalfEven]
    split <;> omega
  have hlek : n <<< unitPlace / (d * 2 ^ s) ≤ k := by
    rw [hk, roundHalfEven]
    split <;> omega
  have hcast : ((n <<< unitPlace : Nat) : ℚ) / (d * 2 ^ s : Nat) =
      n * 2 ^ unitPlace / d / 2 ^ s := by
    rw [Nat.shiftLeft_eq, div_div]
    push_cast
    rfl
  have hround := isHalfEven_roundHalfEven (n <<< unitPlace) (Nat.mul_pos hd (Nat.two_pow_pos s))
  rw [hcast] at hround
  refine ⟨s, k, hnearest, ?_, hround, fun h => ?_⟩
  · rw [hnearest]
    exact units_mul_add (by omega) fun h => (hge h).trans hlek
  · rw [← hcast]
    exact (Nat.cast_le.2 (hge h)).trans Nat.cast_div_le

theorem isNearestInUnits_nearest (n : Nat) {d : Nat} (hd : 0 < d) :
    IsNearestInUnits (n * 2 ^ unitPlace / d) (nearest n d) := by
  obtain ⟨s, k, hnearest, hunits, hround, hge⟩ := exists_nearest_eq n hd
  set u : ℚ := n * 2 ^ unitPlace / d with hu
  have hpos : (0 : ℚ) < 2 ^ s := by positivity
  -- distances on the scale are distances of whole numbers
  have hscale : ∀ j : Nat, |((j * 2 ^ s : Nat) : ℚ) - u| = |(j : ℚ) - u / 2 ^ s| * 2 ^ s := by
    intro j
    rw [← abs_of_pos hpos, ← abs_mul, sub_mul, abs_of_pos hpos, div_mul_cancel₀ _ hpos.ne']
    push_cast
    rfl
  -- what is too small for the scale is farther away than the least number on it
  have hfar : ∀ m', units m' < binade * 2 ^ s → s ≠ 0 →
      |(units (nearest n d) : ℚ) - u| < |(units m' : ℚ) - u| := by
    intro m' hlt h
    have hle : ((binade * 2 ^ s : Nat) : ℚ) ≤ u := by
      have := (le_div_iff₀ hpos).1 (hge h)
      exact_mod_cast this
    have hlt' : (units m' : ℚ) < (binade * 2 ^ s : Nat) := Nat.cast_lt.2 hlt
    calc |(units (nearest n d) : ℚ) - u| = |(k : ℚ) - u / 2 ^ s| * 2 ^ s := by rw [hunits, hscale]
      _ ≤ |(binade : ℚ) - u / 2 ^ s| * 2 ^ s :=
        mul_le_mul_of_nonneg_right (hround.closest binade) hpos.le
      _ = u - (binade * 2 ^ s : Nat) := by rw [← hscale, abs_of_nonpos (by linarith), neg_sub]
      _ < u - units m' := by linarith
      _ = |(units m' : ℚ) - u| := by rw [abs_of_nonpos (by linarith), neg_sub]
  constructor
  · intro m'
    rcases exists_units_eq_or_lt m' s with ⟨j, hj⟩ | ⟨h, hlt⟩
    · rw [hunits, hj, hscale, hscale]
      exact mul_le_mul_of_nonneg_right (hround.closest j) hpos.le
    · exact (hfar m' hlt h).le
  · intro m' hne htie
    rcases exists_units_eq_or_lt m' s with ⟨j, hj⟩ | ⟨h, hlt⟩
    · have hjk : j ≠ k := by
        rintro rfl
        exact hne (strictMono_units.injective (hj.trans hunits.symm))
      rw [hunits, hj, hscale, hscale, mul_left_inj' hpos.ne'] at htie
      rw [hnearest]
      exact (even_iff_two_dvd.2 (by decide)).mul_right s |>.add (hround.even_of_tie hjk htie)
    · exact absurd htie (hfar m' hlt h).ne'

/-! ## Which fractions are too large -/

/-- The scale of the largest finite magnitudes. -/
def topScale : Nat := 2045

theorem units_infinityMagnitude : units infinityMagnitude = 2 ^ 53 * 2 ^ topScale := by
  have h := @units_mul_add topScale (2 * binade) le_rfl fun _ => Nat.le_mul_of_pos_left _ two_pos
  have hm : binade * topScale + 2 * binade = infinityMagnitude := by decide
  have hbinade : 2 * binade = 2 ^ 53 := by decide
  rwa [hm, hbinade] at h

theorem units_infinityMagnitude_pred :
    units (infinityMagnitude - 1) + 2 ^ topScale = 2 ^ 53 * 2 ^ topScale := by
  have hscale : scale (infinityMagnitude - 1) = topScale := by decide
  have h := units_succ (infinityMagnitude - 1)
  rw [Nat.sub_add_cancel (by decide), units_infinityMagnitude, hscale] at h
  rw [units_eq, hscale, h, Nat.add_mul, one_mul]

variable {u : ℚ} {m : Nat}

/-- **A fraction is rounded to a finite magnitude** if it is less than half way from the largest of
them to the power of two that comes next. -/
theorem IsNearestInUnits.lt_infinityMagnitude_iff (h : IsNearestInUnits u m) :
    m < infinityMagnitude ↔ u < 2 ^ 53 * 2 ^ topScale - 2 ^ topScale / 2 := by
  have hinfinity : (units infinityMagnitude : ℚ) = 2 ^ 53 * 2 ^ topScale := by
    exact_mod_cast units_infinityMagnitude
  have hlast : (units (infinityMagnitude - 1) : ℚ) + 2 ^ topScale = 2 ^ 53 * 2 ^ topScale := by
    exact_mod_cast units_infinityMagnitude_pred
  have hpos : (0 : ℚ) < 2 ^ topScale := by positivity
  rw [← hinfinity] at hlast ⊢
  generalize (2 : ℚ) ^ topScale = w at hlast hpos ⊢
  constructor
  · intro hm
    refine lt_of_not_ge fun hu => ?_
    have hle : (units m : ℚ) ≤ units (infinityMagnitude - 1) :=
      Nat.cast_le.2 (strictMono_units.monotone (Nat.le_pred_of_lt hm))
    have hclosest := h.closest infinityMagnitude
    rw [abs_of_nonpos (by linarith)] at hclosest
    rcases le_total u (units infinityMagnitude) with hbelow | habove
    · -- only the largest finite magnitude is as near as the power of two, and it is odd
      rw [abs_of_nonneg (by linarith)] at hclosest
      have hlargest : (units m : ℚ) = units (infinityMagnitude - 1) := by linarith
      have htie : |(units infinityMagnitude : ℚ) - u| = |(units m : ℚ) - u| := by
        rw [abs_of_nonneg (by linarith), abs_of_nonpos (by linarith)]
        linarith
      have heven := h.even infinityMagnitude hm.ne' htie
      rw [strictMono_units.injective (Nat.cast_inj.1 hlargest)] at heven
      exact absurd (Nat.even_iff.1 heven) (by decide)
    · rw [abs_of_nonpos (by linarith)] at hclosest
      linarith
  · intro hu
    refine lt_of_not_ge fun hm => ?_
    have hle : (units infinityMagnitude : ℚ) ≤ units m :=
      Nat.cast_le.2 (strictMono_units.monotone hm)
    have hclosest := h.closest (infinityMagnitude - 1)
    rw [abs_of_nonneg (by linarith)] at hclosest
    rcases le_total u (units (infinityMagnitude - 1)) with hbelow | habove
    · rw [abs_of_nonneg (by linarith)] at hclosest
      linarith
    · rw [abs_of_nonpos (by linarith)] at hclosest
      linarith

/-! ## The nearest number -/

variable {x y : Binary64} {q : ℚ}

theorem wholeSignificand_eq (x : Binary64) : x.wholeSignificand = significand x.magnitude := by
  rw [wholeSignificand, exponentField, fractionField, significand, scale, binade]
  split <;> omega

/-- The parity of a magnitude is that of its significand. -/
theorem even_wholeSignificand_iff : Even x.wholeSignificand ↔ Even x.magnitude := by
  have hm := scale_mul_add_significand x.magnitude
  have hbinade : binade = 2 * (binade / 2) := by decide
  rw [wholeSignificand_eq, Nat.even_iff, Nat.even_iff]
  rw [hbinade, ← mul_assoc, mul_comm _ 2, mul_assoc] at hm
  omega

/-- The value of a number is that of its magnitude in units, with its sign. -/
theorem toRat_eq (x : Binary64) :
    x.toRat = if x.negative then -(units x.magnitude / 2 ^ unitPlace : ℚ)
      else units x.magnitude / 2 ^ unitPlace := by
  have hexponent : (max x.exponentField 1 : ℤ) - 1075 = scale x.magnitude - unitPlace := by
    rw [exponentField, scale, unitPlace, binade]
    omega
  rw [toRat, wholeSignificand_eq, hexponent, zpow_sub₀ two_ne_zero, zpow_natCast, zpow_natCast,
    units_eq, Nat.cast_mul, Nat.cast_pow, Nat.cast_ofNat, mul_div_assoc]

theorem toRat_of_negative_eq_false (h : x.negative = false) :
    x.toRat = units x.magnitude / 2 ^ unitPlace := by
  rw [toRat_eq, h, if_neg Bool.false_ne_true]

theorem abs_toRat (x : Binary64) : |x.toRat| = units x.magnitude / 2 ^ unitPlace := by
  have hnonneg : (0 : ℚ) ≤ units x.magnitude / 2 ^ unitPlace := by positivity
  rw [toRat_eq]
  split
  · rw [abs_neg, abs_of_nonneg hnonneg]
  · rw [abs_of_nonneg hnonneg]

/-- Distances are the same in units. -/
theorem abs_units_sub (m : Nat) (q : ℚ) :
    |(units m : ℚ) - q * 2 ^ unitPlace| = |(units m : ℚ) / 2 ^ unitPlace - q| * 2 ^ unitPlace := by
  have hpos : (0 : ℚ) < 2 ^ unitPlace := by positivity
  rw [← abs_of_pos hpos, ← abs_mul, sub_mul, abs_of_pos hpos, div_mul_cancel₀ _ hpos.ne']

/-- **The nearest magnitude is the nearest number**, when what is rounded is not negative. -/
theorem IsNearestInUnits.isNearest (h : IsNearestInUnits (q * 2 ^ unitPlace) x.magnitude)
    (hfinite : x.IsFinite) (hsign : x.negative = false) (hq : 0 ≤ q) : x.IsNearest q := by
  have hpos : (0 : ℚ) < 2 ^ unitPlace := by positivity
  have hclosest : ∀ m, |x.toRat - q| ≤ |(units m : ℚ) / 2 ^ unitPlace - q| := by
    intro m
    have hm := h.closest m
    rwa [abs_units_sub, abs_units_sub, mul_le_mul_iff_left₀ hpos,
      ← toRat_of_negative_eq_false hsign] at hm
  -- taking the sign away brings no number farther from what is not negative
  have habs : ∀ y : Binary64, |(units y.magnitude : ℚ) / 2 ^ unitPlace - q| ≤ |y.toRat - q| := by
    intro y
    have := abs_abs_sub_abs_le y.toRat q
    rwa [abs_toRat, abs_of_nonneg hq] at this
  refine ⟨hfinite, fun y _ => (hclosest y.magnitude).trans (habs y), fun y _ hne htie => ?_⟩
  have hmagnitude : y.magnitude ≠ x.magnitude := by
    -- else they differ in their signs, and then zero would be nearer than either
    intro heq
    have hx := toRat_of_negative_eq_false hsign
    have hnonneg : 0 ≤ x.toRat := by
      rw [hx, ← abs_toRat]
      exact abs_nonneg _
    have hzero := hclosest 0
    rw [show units 0 = 0 from rfl, Nat.cast_zero, zero_div, zero_sub, abs_neg, abs_of_nonneg hq]
      at hzero
    rw [toRat_eq y, heq, ← hx] at hne htie
    split at htie
    · rename_i hy
      rw [if_pos hy] at hne
      rw [abs_of_nonpos (by linarith)] at htie
      exact hne (by linarith)
    · rename_i hy
      exact hne (if_neg hy)
  have hle := habs y
  rw [htie] at hle
  rw [even_wholeSignificand_iff]
  refine h.even _ hmagnitude ?_
  rw [abs_units_sub, abs_units_sub, ← toRat_of_negative_eq_false hsign]
  rw [le_antisymm hle (hclosest y.magnitude)]

/-- **There is one nearest number** that is not negative: of two neighbours one is odd. -/
theorem IsNearest.unique (hx : x.IsNearest q) (hy : y.IsNearest q) (hsx : x.negative = false)
    (hsy : y.negative = false) : x = y := by
  wlog hle : x.magnitude ≤ y.magnitude generalizing x y
  · exact (this hy hx hsy hsx (Nat.le_of_not_le hle)).symm
  have hpos : (0 : ℚ) < 2 ^ unitPlace := by positivity
  have hvalue : ∀ z z' : Binary64, z.negative = false → z'.negative = false →
      z.magnitude < z'.magnitude → z.toRat < z'.toRat := by
    intro z z' hz hz' hlt
    rw [toRat_of_negative_eq_false hz, toRat_of_negative_eq_false hz',
      div_lt_div_iff_of_pos_right hpos]
    exact Nat.cast_lt.2 (strictMono_units hlt)
  rcases Nat.eq_or_lt_of_le hle with heq | hlt
  · cases x
    cases y
    simp_all
  · have hlt' := hvalue x y hsx hsy hlt
    have htie := le_antisymm (hx.closest y hy.finite) (hy.closest x hx.finite)
    have hmiddle : x.toRat - q = -(y.toRat - q) := by
      rcases abs_eq_abs.1 htie with h | h
      · linarith
      · exact h
    by_cases hnext : y.magnitude = x.magnitude + 1
    · have hevenx := even_wholeSignificand_iff.1 (hx.even y hy.finite hlt'.ne' htie.symm)
      have heveny := even_wholeSignificand_iff.1 (hy.even x hx.finite hlt'.ne htie)
      rw [hnext] at heveny
      exact absurd hevenx (Nat.even_add_one.1 heveny)
    · -- a number between the two would be nearer
      have hz : x.magnitude + 1 < y.magnitude := by omega
      let z : Binary64 := ⟨false, x.magnitude + 1, hz.trans y.magnitude_lt⟩
      have hxz := hvalue x z hsx rfl (Nat.lt_succ_self _)
      have hzy := hvalue z y rfl hsy hz
      have hclosest := hx.closest z (hz.trans hy.finite)
      rw [abs_of_nonpos (by linarith)] at hclosest
      rcases abs_cases (z.toRat - q) with ⟨h, -⟩ | ⟨h, -⟩ <;> linarith

end Binary64

/-! ## Decimals -/

namespace Decimal

theorem isNearestInUnits_magnitude (d : Decimal) :
    Binary64.IsNearestInUnits (d.toRat * 2 ^ Binary64.unitPlace) d.magnitude := by
  rw [toRat, div_mul_eq_mul_div]
  exact Binary64.isNearestInUnits_nearest d.numerator d.denominator_pos

/-- Decimals of one value are rounded alike. -/
theorem magnitude_congr {d d' : Decimal} (h : d.toRat = d'.toRat) : d.magnitude = d'.magnitude := by
  have hd : (d.denominator : ℚ) ≠ 0 := Nat.cast_ne_zero.2 d.denominator_pos.ne'
  have hd' : (d'.denominator : ℚ) ≠ 0 := Nat.cast_ne_zero.2 d'.denominator_pos.ne'
  rw [toRat, toRat, div_eq_div_iff hd hd'] at h
  exact Binary64.nearest_congr d.denominator_pos d'.denominator_pos (by exact_mod_cast h)

theorem toRat_nonneg (d : Decimal) : 0 ≤ d.toRat := by
  rw [toRat]
  positivity

end Decimal
end Calculator
