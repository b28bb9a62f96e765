import Calculator.Decimal.Shortest
import Calculator.Proofs.Rounding

/-!
# The shortest decimal

A number is written with as few digits as will do, and with those that come nearest to its value
(`isShortest_shortest`).  The search goes through grids, one for each number of digits, and tries
two points of each.  That this is enough rests on three facts.

* Rounding is monotone (`magnitude_le_of_toRat_le`).  So if a decimal reads back, every decimal
  between it and the exact value does, and among these is one of the two points, unless the decimal
  lies between them.
* A decimal with no more digits than a grid has does not lie between two neighbours on it
  (`clears_of_digitCount`): it is on the grid, or below the power of ten from which the grid counts,
  which is on the grid itself.
* Neighbouring magnitudes lie apart by more than the grid of 17 digits is wide, so one of its points
  reads back (`exists_onGrid?`) and the exact value behind the search is never needed.
-/

set_option autoImplicit false

namespace Calculator

/-! ## The spacing of magnitudes -/

namespace Binary64

/-- The value of a magnitude. -/
def worth (m : Nat) : ℚ := units m / 2 ^ unitPlace

theorem worth_zero : worth 0 = 0 := by
  rw [worth, show units 0 = 0 from rfl, Nat.cast_zero, zero_div]

theorem worth_pos {m : Nat} (h : 0 < m) : 0 < worth m := by
  have hunits : 0 < units m := strictMono_units h
  rw [worth]
  positivity

/-- The search counts the value of a magnitude as this fraction. -/
theorem numerator_div_eq (m : Nat) :
    (numerator m : ℚ) / (1 <<< halvings m : Nat) = worth m := by
  have hunits : (numerator m * 2 ^ unitPlace : ℚ) = units m * 2 ^ halvings m := by
    have hshift := numerator_shiftLeft m
    rw [Nat.shiftLeft_eq, Nat.shiftLeft_eq] at hshift
    exact_mod_cast hshift
  rw [Nat.one_shiftLeft, worth, Nat.cast_pow, Nat.cast_ofNat, div_eq_div_iff (by positivity)
    (by positivity), hunits]

/-- A magnitude lies apart from the one before it by more than one part in `2 ^ 53`. -/
theorem units_succ_le_mul_sub (k : Nat) :
    (units (k + 1) : ℚ) ≤ 2 ^ 53 * ((units (k + 1) : ℚ) - units k) := by
  have hbinade : 2 * binade = 2 ^ 53 := by decide
  have hbound : units (k + 1) ≤ 2 ^ 53 * (units (k + 1) - units k) := by
    rw [units_succ, units_eq, ← Nat.sub_mul, Nat.add_sub_cancel_left, one_mul, ← hbinade]
    exact Nat.mul_le_mul_right _ (significand_lt k)
  rw [← Nat.cast_sub (strictMono_units (Nat.lt_succ_self k)).le]
  exact_mod_cast hbound

/-- So two magnitudes lie apart by more than one part in `2 ^ 53` of either. -/
theorem units_le_mul_sub {m m' : Nat} (hne : m' ≠ m) :
    (units m : ℚ) ≤ 2 ^ 53 * |(units m' : ℚ) - units m| := by
  have hmono : ∀ {k l : Nat}, k ≤ l → (units k : ℚ) ≤ units l := fun h =>
    Nat.cast_le.2 (strictMono_units.monotone h)
  rcases Nat.lt_or_gt_of_ne hne with hlt | hgt
  · obtain ⟨k, rfl⟩ : ∃ k, m = k + 1 := ⟨m - 1, by omega⟩
    have hbefore : (units m' : ℚ) ≤ units k := hmono (Nat.le_of_lt_succ hlt)
    have hstep := hmono (Nat.le_succ k)
    have hapart := units_succ_le_mul_sub k
    rw [abs_sub_comm, abs_of_nonneg (by linarith)]
    linarith
  · have hstep := hmono (Nat.le_succ m)
    have hafter : (units (m + 1) : ℚ) ≤ units m' := hmono hgt
    have hapart := units_succ_le_mul_sub m
    rw [abs_of_nonneg (by linarith)]
    linarith

section Nearest

variable {u u' : ℚ} {m m' : Nat}

theorem IsNearestInUnits.add_le (h : IsNearestInUnits u m) (hlt : m' < m) :
    (units m' : ℚ) + units m ≤ 2 * u := by
  have hunits : (units m' : ℚ) < units m := Nat.cast_lt.2 (strictMono_units hlt)
  have hclosest := h.closest m'
  rcases abs_cases ((units m : ℚ) - u) with h1 | h1 <;>
    rcases abs_cases ((units m' : ℚ) - u) with h2 | h2 <;> linarith

theorem IsNearestInUnits.le_add (h : IsNearestInUnits u m) (hlt : m < m') :
    2 * u ≤ (units m : ℚ) + units m' := by
  have hunits : (units m : ℚ) < units m' := Nat.cast_lt.2 (strictMono_units hlt)
  have hclosest := h.closest m'
  rcases abs_cases ((units m : ℚ) - u) with h1 | h1 <;>
    rcases abs_cases ((units m' : ℚ) - u) with h2 | h2 <;> linarith

/-- **Rounding is monotone.** -/
theorem IsNearestInUnits.le_of_le (h : IsNearestInUnits u m) (h' : IsNearestInUnits u' m')
    (hle : u ≤ u') : m ≤ m' := by
  refine Nat.le_of_not_lt fun hlt => ?_
  have hadd := h.add_le hlt
  have hadd' := h'.le_add hlt
  rcases Nat.eq_or_lt_of_le (Nat.succ_le_of_lt hlt) with hnext | hbetween
  · -- both fractions lie half way between two neighbours, of which one is odd
    have htie : ∀ x : ℚ, 2 * x = units m' + units m →
        |(units m' : ℚ) - x| = |(units m : ℚ) - x| := by
      intro x hx
      rw [abs_sub_comm, show x - (units m' : ℚ) = units m - x by linarith]
    have heven := h.even m' hlt.ne (htie u (by linarith))
    have heven' := h'.even m hlt.ne' (htie u' (by linarith)).symm
    rw [← hnext] at heven
    exact absurd heven' (Nat.even_add_one.1 heven)
  · have hstep : (units m' : ℚ) < units (m' + 1) :=
      Nat.cast_lt.2 (strictMono_units (Nat.lt_succ_self m'))
    have hbetween' := h.add_le hbetween
    linarith

theorem isNearestInUnits_worth (m : Nat) :
    IsNearestInUnits (worth m * 2 ^ unitPlace) m := by
  rw [worth, div_mul_cancel₀ _ (by positivity)]
  refine ⟨fun m' => ?_, fun m' hne htie => ?_⟩
  · rw [sub_self, abs_zero]
    exact abs_nonneg _
  · rw [sub_self, abs_zero, abs_eq_zero, sub_eq_zero] at htie
    exact absurd (strictMono_units.injective (Nat.cast_inj.1 htie)) hne

end Nearest

end Binary64

/-! ## Decimals -/

namespace Decimal

open Binary64

/-- The number of digits that a decimal is written with. -/
def digitCount (d : Decimal) : Nat := (Nat.toDigits 10 d.coefficient).length

theorem digitCount_le_iff {d : Decimal} {k : Nat} :
    d.digitCount ≤ k + 1 ↔ d.coefficient < 10 ^ (k + 1) :=
  Nat.length_toDigits_le_iff (by decide) (Nat.succ_pos k)

theorem digitCount_pos (d : Decimal) : 0 < d.digitCount := Nat.length_toDigits_pos

theorem toRat_eq (d : Decimal) : d.toRat = d.coefficient * 10 ^ d.exponent := by
  rw [toRat, numerator, denominator, Nat.pow_eq, Nat.pow_eq]
  push_cast
  rcases Int.le_total 0 d.exponent with h | h
  · have hzero : (-d.exponent).toNat = 0 := by omega
    rw [hzero, pow_zero, div_one, ← zpow_natCast, Int.toNat_of_nonneg h]
  · have hzero : d.exponent.toNat = 0 := by omega
    rw [hzero, pow_zero, mul_one, ← zpow_natCast, Int.toNat_of_nonneg (by omega), zpow_neg,
      div_inv_eq_mul]

theorem toRat_trim (coefficient : Nat) (exponent : Int) :
    (trim coefficient exponent).toRat = coefficient * 10 ^ exponent := by
  fun_induction trim coefficient exponent with
  | case1 coefficient exponent h ih =>
    have hcast : (coefficient : ℚ) = (coefficient / 10 : Nat) * 10 := by
      exact_mod_cast (Nat.div_mul_cancel (Nat.dvd_of_mod_eq_zero h.2)).symm
    rw [ih, hcast, zpow_add_one₀ (by norm_num), mul_assoc, mul_comm (10 : ℚ)]
  | case2 => exact toRat_eq _

theorem toRat_normalize (d : Decimal) : d.normalize.toRat = d.toRat := by
  rw [normalize, toRat_trim, toRat_eq]

theorem coefficient_trim_le (coefficient : Nat) (exponent : Int) :
    (trim coefficient exponent).coefficient ≤ coefficient := by
  fun_induction trim coefficient exponent with
  | case1 coefficient exponent h ih => exact ih.trans (Nat.div_le_self _ _)
  | case2 => exact Nat.le_refl _

/-- A normal form has few digits, a power of ten no more than one. -/
theorem digitCount_normalize_le {coefficient k : Nat} {exponent : Int}
    (h : coefficient ≤ 10 ^ (k + 1)) : (normalize ⟨coefficient, exponent⟩).digitCount ≤ k + 1 := by
  rw [digitCount_le_iff, normalize]
  rcases Nat.lt_or_eq_of_le h with hlt | rfl
  · exact Nat.lt_of_le_of_lt (coefficient_trim_le _ _) hlt
  · have hten : 10 ^ (k + 1) ≠ 0 ∧ 10 ^ (k + 1) % 10 = 0 := by
      rw [Nat.pow_succ, Nat.mul_mod_left]
      exact ⟨by positivity, rfl⟩
    have hdiv : 10 ^ (k + 1) / 10 = 10 ^ k := by
      rw [Nat.pow_succ, Nat.mul_div_cancel _ (by decide)]
    rw [trim, dif_pos hten, hdiv]
    exact Nat.lt_of_le_of_lt (coefficient_trim_le _ _)
      (Nat.pow_lt_pow_right (by decide) (Nat.lt_succ_self k))

/-- Larger decimals are not rounded to smaller numbers. -/
theorem magnitude_le_of_toRat_le {d d' : Decimal} (h : d.toRat ≤ d'.toRat) :
    d.magnitude ≤ d'.magnitude :=
  d.isNearestInUnits_magnitude.le_of_le d'.isNearestInUnits_magnitude
    (mul_le_mul_of_nonneg_right h (by positivity))

theorem magnitude_le_of_toRat_le_worth {d : Decimal} {m : Nat} (h : d.toRat ≤ worth m) :
    d.magnitude ≤ m :=
  d.isNearestInUnits_magnitude.le_of_le (isNearestInUnits_worth m)
    (mul_le_mul_of_nonneg_right h (by positivity))

theorem le_magnitude_of_worth_le_toRat {d : Decimal} {m : Nat} (h : worth m ≤ d.toRat) :
    m ≤ d.magnitude :=
  (isNearestInUnits_worth m).le_of_le d.isNearestInUnits_magnitude
    (mul_le_mul_of_nonneg_right h (by positivity))

/-! ## Leading places -/

theorem exists_pow_le {q : Nat} (h : 0 < q) :
    ∃ k, (Nat.toDigits 10 q).length = k + 1 ∧ 10 ^ k ≤ q ∧ q < 10 ^ (k + 1) := by
  have hpos : 0 < (Nat.toDigits 10 q).length := Nat.length_toDigits_pos
  obtain ⟨k, hk⟩ : ∃ k, (Nat.toDigits 10 q).length = k + 1 :=
    ⟨(Nat.toDigits 10 q).length - 1, by omega⟩
  refine ⟨k, hk, ?_, (Nat.length_toDigits_le_iff (by decide) (Nat.succ_pos k)).1 hk.le⟩
  cases k with
  | zero => exact h
  | succ k =>
    refine Nat.le_of_not_lt fun hlt => ?_
    have := (Nat.length_toDigits_le_iff (by decide) (Nat.succ_pos k)).2 hlt
    omega

/-- A fraction begins at its leading place. -/
theorem leadingPlace_spec {n d : Nat} (hn : 0 < n) (hd : 0 < d) :
    (10 : ℚ) ^ (leadingPlace n d - 1) ≤ n / d ∧ (n : ℚ) / d < 10 ^ leadingPlace n d := by
  have hdpos : (0 : ℚ) < d := Nat.cast_pos.2 hd
  rw [leadingPlace, le_div_iff₀ hdpos, div_lt_iff₀ hdpos]
  split
  · rename_i hle
    obtain ⟨k, hk, hge, hlt⟩ := exists_pow_le (Nat.div_pos hle hd)
    rw [Nat.le_div_iff_mul_le hd] at hge
    rw [Nat.div_lt_iff_lt_mul hd] at hlt
    rw [hk, Nat.cast_succ, add_sub_cancel_right, ← Nat.cast_succ, zpow_natCast, zpow_natCast]
    exact ⟨by exact_mod_cast hge, by exact_mod_cast hlt⟩
  · rename_i hle
    have hquotient : 0 < (d - 1) / n := Nat.div_pos (Nat.le_pred_of_lt (Nat.lt_of_not_le hle)) hn
    obtain ⟨k, hk, hge, hlt⟩ := exists_pow_le hquotient
    rw [Nat.le_div_iff_mul_le hn] at hge
    rw [Nat.div_lt_iff_lt_mul hn] at hlt
    have hfirst : 1 - ((k + 1 : Nat) : Int) - 1 = -((k + 1 : Nat) : Int) := by omega
    have hplace : 1 - ((k + 1 : Nat) : Int) = -(k : Int) := by omega
    rw [hk, hfirst, hplace, zpow_neg, zpow_neg, zpow_natCast, zpow_natCast,
      inv_mul_le_iff₀ (by positivity), lt_inv_mul_iff₀ (by positivity)]
    exact ⟨by exact_mod_cast (by omega : d ≤ 10 ^ (k + 1) * n),
      by exact_mod_cast (by omega : 10 ^ k * n < d)⟩

/-! ## Grids -/

section Grid

variable (m : Nat) (exponent : Int)

/-- The neighbour of the value of a magnitude below it on a grid, or the value itself. -/
def lower : Decimal := (neighbours (Binary64.numerator m) (1 <<< halvings m) exponent).1

/-- The neighbour of the value of a magnitude above it on a grid. -/
def upper : Decimal := (neighbours (Binary64.numerator m) (1 <<< halvings m) exponent).2

/-- What is divided to count the steps on a grid up to the value of a magnitude. -/
def dividend : Nat := Binary64.numerator m * Nat.pow 10 (-exponent).toNat

/-- What a step on a grid counts in the dividend. -/
def divisor : Nat := 1 <<< halvings m * Nat.pow 10 exponent.toNat

theorem divisor_pos : 0 < divisor m exponent := by
  rw [divisor, Nat.one_shiftLeft, Nat.pow_eq]
  positivity

theorem step_pos : (0 : ℚ) < 10 ^ exponent := zpow_pos (by norm_num) exponent

theorem toRat_lower :
    (lower m exponent).toRat =
      (dividend m exponent / divisor m exponent : Nat) * 10 ^ exponent := by
  rw [lower, neighbours, toRat_normalize, toRat_eq, dividend, divisor]

theorem toRat_upper : (upper m exponent).toRat = (lower m exponent).toRat + 10 ^ exponent := by
  rw [toRat_lower, ← add_one_mul, upper, neighbours, toRat_normalize, toRat_eq, dividend, divisor]
  push_cast
  rfl

/-- The dividend counts the value. -/
theorem dividend_div_divisor :
    (dividend m exponent : ℚ) / divisor m exponent = worth m / 10 ^ exponent := by
  rw [← numerator_div_eq, dividend, divisor, Nat.pow_eq, Nat.pow_eq]
  push_cast
  rcases Int.le_total 0 exponent with h | h
  · have hzero : (-exponent).toNat = 0 := by omega
    rw [hzero, pow_zero, mul_one, ← div_div, ← zpow_natCast (10 : ℚ), Int.toNat_of_nonneg h]
  · have hzero : exponent.toNat = 0 := by omega
    rw [hzero, pow_zero, mul_one, ← zpow_natCast (10 : ℚ), Int.toNat_of_nonneg (by omega),
      zpow_neg, mul_div_right_comm, div_eq_mul_inv _ ((10 : ℚ) ^ exponent)]

/-- The value lies above its lower neighbour by what is left over. -/
theorem worth_eq : worth m = (lower m exponent).toRat +
    ((dividend m exponent % divisor m exponent : Nat) : ℚ) / divisor m exponent *
      10 ^ exponent := by
  have hdiv := dividend_div_divisor m exponent
  rw [div_eq_add_mod_div _ (divisor_pos m exponent), eq_div_iff (step_pos exponent).ne',
    add_mul, ← toRat_lower] at hdiv
  exact hdiv.symm

theorem lower_le_worth : (lower m exponent).toRat ≤ worth m := by
  have := step_pos exponent
  rw [worth_eq m exponent]
  exact le_add_of_nonneg_right (by positivity)

theorem worth_lt_upper : worth m < (upper m exponent).toRat := by
  have hlt : ((dividend m exponent % divisor m exponent : Nat) : ℚ) / divisor m exponent < 1 := by
    rw [div_lt_one (Nat.cast_pos.2 (divisor_pos m exponent))]
    exact_mod_cast Nat.mod_lt _ (divisor_pos m exponent)
  rw [worth_eq m exponent, toRat_upper, add_lt_add_iff_left]
  exact mul_lt_of_lt_one_left (step_pos exponent) hlt

theorem belowMiddle_iff :
    belowMiddle (Binary64.numerator m) (1 <<< halvings m) exponent = true ↔
      worth m - (lower m exponent).toRat < (upper m exponent).toRat - worth m := by
  have hstep : (0 : ℚ) < divisor m exponent := Nat.cast_pos.2 (divisor_pos m exponent)
  have hhalf : 2 * (dividend m exponent % divisor m exponent) < divisor m exponent ↔
      ((dividend m exponent % divisor m exponent : Nat) : ℚ) / divisor m exponent < 1 / 2 := by
    rw [div_lt_div_iff₀ hstep two_pos, one_mul, mul_comm]
    norm_cast
  have hpos := step_pos exponent
  rw [belowMiddle, decide_eq_true_iff]
  refine hhalf.trans ?_
  rw [toRat_upper, worth_eq m exponent]
  generalize ((dividend m exponent % divisor m exponent : Nat) : ℚ) / divisor m exponent = r
  generalize (10 : ℚ) ^ exponent = w at hpos
  rw [← mul_lt_mul_iff_left₀ hpos]
  constructor <;> intro h <;> linarith

end Grid

/-! ## The point that is chosen on a grid -/

/-- A decimal does not lie between the two neighbours on a grid. -/
def Clears (m : Nat) (exponent : Int) (d : Decimal) : Prop :=
  d.toRat ≤ (lower m exponent).toRat ∨ (upper m exponent).toRat ≤ d.toRat

/-- The first decimal is nearer to the value of a magnitude than the other, or it is as near and not
smaller. -/
def IsAsGood (m : Nat) (d d' : Decimal) : Prop :=
  |d.toRat - worth m| < |d'.toRat - worth m| ∨
    (|d.toRat - worth m| = |d'.toRat - worth m| ∧ d'.toRat ≤ d.toRat)

section Chosen

variable {m : Nat} {exponent : Int} {d chosen : Decimal}

theorem onGrid?_eq (m : Nat) (exponent : Int) :
    onGrid? m (Binary64.numerator m) (1 <<< halvings m) exponent =
      if (lower m exponent).magnitude = m then
        if (upper m exponent).magnitude = m ∧
            ¬ belowMiddle (Binary64.numerator m) (1 <<< halvings m) exponent = true then
          some (upper m exponent)
        else some (lower m exponent)
      else if (upper m exponent).magnitude = m then some (upper m exponent)
      else none := rfl

/-- What lies between a decimal that reads back and the value reads back as well. -/
theorem Clears.reads (hc : Clears m exponent d) (h : d.magnitude = m) :
    (d.toRat ≤ (lower m exponent).toRat ∧ (lower m exponent).magnitude = m) ∨
      ((upper m exponent).toRat ≤ d.toRat ∧ (upper m exponent).magnitude = m) := by
  rcases hc with hle | hle
  · have hge := magnitude_le_of_toRat_le hle
    rw [h] at hge
    exact .inl ⟨hle, Nat.le_antisymm
      (magnitude_le_of_toRat_le_worth (lower_le_worth m exponent)) hge⟩
  · have hge := magnitude_le_of_toRat_le hle
    rw [h] at hge
    exact .inr ⟨hle, Nat.le_antisymm hge
      (le_magnitude_of_worth_le_toRat (worth_lt_upper m exponent).le)⟩

theorem exists_onGrid? (hc : Clears m exponent d) (h : d.magnitude = m) :
    ∃ chosen, onGrid? m (Binary64.numerator m) (1 <<< halvings m) exponent = some chosen := by
  rw [onGrid?_eq]
  rcases hc.reads h with ⟨-, hreads⟩ | ⟨-, hreads⟩
  · rw [if_pos hreads]
    split
    · exact ⟨_, rfl⟩
    · exact ⟨_, rfl⟩
  · rw [if_pos hreads]
    split
    · split
      · exact ⟨_, rfl⟩
      · exact ⟨_, rfl⟩
    · exact ⟨_, rfl⟩

theorem eq_lower_or_eq_upper
    (hchosen : onGrid? m (Binary64.numerator m) (1 <<< halvings m) exponent = some chosen) :
    chosen = lower m exponent ∨ chosen = upper m exponent := by
  rw [onGrid?_eq] at hchosen
  split at hchosen
  · split at hchosen <;> cases hchosen
    · exact .inr rfl
    · exact .inl rfl
  · split at hchosen <;> cases hchosen
    exact .inr rfl

/-- A decimal is as good as those behind it, seen from the value. -/
theorem isAsGood_of_between
    (h : (d.toRat ≤ chosen.toRat ∧ chosen.toRat ≤ worth m) ∨
      (worth m ≤ chosen.toRat ∧ chosen.toRat ≤ d.toRat)) : IsAsGood m chosen d := by
  have hle : |chosen.toRat - worth m| ≤ |d.toRat - worth m| := by
    rcases h with ⟨h1, h2⟩ | ⟨h1, h2⟩
    · rw [abs_of_nonpos (by linarith), abs_of_nonpos (by linarith)]
      linarith
    · rw [abs_of_nonneg (by linarith), abs_of_nonneg (by linarith)]
      linarith
  refine hle.lt_or_eq.imp_right fun heq => ⟨heq, ?_⟩
  rcases h with ⟨h1, -⟩ | ⟨h1, h2⟩
  · exact h1
  · rw [abs_of_nonneg (by linarith), abs_of_nonneg (by linarith)] at heq
    linarith

/-- **On a grid no decimal is better than the one that is chosen**, if it does not lie between the
neighbours. -/
theorem isAsGood_of_onGrid?
    (hchosen : onGrid? m (Binary64.numerator m) (1 <<< halvings m) exponent = some chosen)
    (hc : Clears m exponent d) (h : d.magnitude = m) : IsAsGood m chosen d := by
  have hlower := lower_le_worth m exponent
  have hupper := worth_lt_upper m exponent
  have hmiddle := belowMiddle_iff m exponent
  have hreads := hc.reads h
  rw [onGrid?_eq] at hchosen
  split at hchosen
  · split at hchosen <;> cases hchosen
    · -- both neighbours read back, and the upper one is not farther away
      rename_i hboth
      rw [hmiddle, not_lt] at hboth
      rcases hreads with ⟨hle, -⟩ | ⟨hle, -⟩
      · have hfar : |(upper m exponent).toRat - worth m| ≤ |d.toRat - worth m| := by
          rw [abs_of_pos (by linarith), abs_of_nonpos (by linarith)]
          linarith [hboth.2]
        exact hfar.lt_or_eq.imp_right fun heq => ⟨heq, by linarith⟩
      · exact isAsGood_of_between (.inr ⟨hupper.le, hle⟩)
    · rename_i hnot
      rcases hreads with ⟨hle, -⟩ | ⟨hle, hreads⟩
      · exact isAsGood_of_between (.inl ⟨hle, hlower⟩)
      · have hnear := hmiddle.1 (Decidable.not_not.1 fun hm => hnot ⟨hreads, hm⟩)
        refine .inl ?_
        rw [abs_of_nonpos (by linarith), abs_of_pos (by linarith)]
        linarith
  · rename_i hnot
    split at hchosen <;> cases hchosen
    rcases hreads with ⟨-, hreads⟩ | ⟨hle, -⟩
    · exact absurd hreads hnot
    · exact isAsGood_of_between (.inr ⟨hupper.le, hle⟩)

end Chosen

/-! ## Digits on a grid -/

section Digits

variable {m : Nat} {d chosen : Decimal}

/-- The exponent of the grid on which the value of a magnitude has `k + 1` digits. -/
def gridExponent (m k : Nat) : Int :=
  leadingPlace (Binary64.numerator m) (1 <<< halvings m) - 1 - k

/-- The value of a magnitude has `k + 1` digits before the places that the grid leaves out. -/
theorem worth_bounds (hm : 0 < m) (k : Nat) :
    (10 : ℚ) ^ k * 10 ^ gridExponent m k ≤ worth m ∧
      worth m < 10 ^ (k + 1) * 10 ^ gridExponent m k := by
  have hn : 0 < Binary64.numerator m := by
    refine Nat.pos_of_ne_zero fun hzero => (worth_pos hm).ne' ?_
    rw [← numerator_div_eq, hzero, Nat.cast_zero, zero_div]
  have hd : 0 < 1 <<< halvings m := by
    rw [Nat.one_shiftLeft]
    exact Nat.two_pow_pos _
  have hspec := leadingPlace_spec hn hd
  have hten : (10 : ℚ) ≠ 0 := by norm_num
  rw [numerator_div_eq] at hspec
  rw [← zpow_natCast, ← zpow_natCast, ← zpow_add₀ hten, ← zpow_add₀ hten, gridExponent]
  push_cast
  rwa [add_sub_cancel, add_right_comm, add_sub_cancel, sub_add_cancel]

theorem steps_bounds (hm : 0 < m) (k : Nat) :
    10 ^ k ≤ dividend m (gridExponent m k) / divisor m (gridExponent m k) ∧
      dividend m (gridExponent m k) / divisor m (gridExponent m k) < 10 ^ (k + 1) := by
  have hpos := step_pos (gridExponent m k)
  obtain ⟨hge, hlt⟩ := worth_bounds hm k
  have hlower := lower_le_worth m (gridExponent m k)
  have hupper := worth_lt_upper m (gridExponent m k)
  rw [toRat_upper, toRat_lower, ← add_one_mul] at hupper
  rw [toRat_lower] at hlower
  have hbelow := lt_of_mul_lt_mul_right (hge.trans_lt hupper) hpos.le
  have habove := lt_of_mul_lt_mul_right (hlower.trans_lt hlt) hpos.le
  exact ⟨Nat.le_of_lt_succ (by exact_mod_cast hbelow), by exact_mod_cast habove⟩

/-- What is chosen on a grid has no more digits than the grid. -/
theorem digitCount_of_onGrid? (hm : 0 < m) {k : Nat}
    (hchosen : onGrid? m (Binary64.numerator m) (1 <<< halvings m) (gridExponent m k) =
      some chosen) : chosen.digitCount ≤ k + 1 := by
  obtain ⟨-, hlt⟩ := steps_bounds hm k
  rcases eq_lower_or_eq_upper hchosen with rfl | rfl
  · exact digitCount_normalize_le hlt.le
  · exact digitCount_normalize_le hlt

/-- **A decimal with no more digits than a grid does not lie between neighbours on it.** -/
theorem clears_of_digitCount (hm : 0 < m) {k : Nat} (h : d.digitCount ≤ k + 1) :
    Clears m (gridExponent m k) d := by
  have hpos := step_pos (gridExponent m k)
  obtain ⟨hge, -⟩ := steps_bounds hm k
  rw [digitCount_le_iff] at h
  rw [Clears, toRat_upper, toRat_lower, ← add_one_mul, toRat_eq]
  rcases Int.lt_or_le d.exponent (gridExponent m k) with hlt | hle
  · -- it has too few places to reach the power of ten at which the grid begins
    refine .inl ?_
    have hstep : (10 : ℚ) ^ d.exponent * 10 ≤ 10 ^ gridExponent m k := by
      rw [← zpow_add_one₀ (by norm_num)]
      exact zpow_le_zpow_right₀ (by norm_num) hlt
    have hcoefficient : (d.coefficient : ℚ) ≤ 10 ^ k * 10 := by
      rw [← pow_succ]
      exact_mod_cast h.le
    have hsteps : (10 : ℚ) ^ k ≤
        (dividend m (gridExponent m k) / divisor m (gridExponent m k) : Nat) := by
      exact_mod_cast hge
    calc (d.coefficient : ℚ) * 10 ^ d.exponent
      _ ≤ 10 ^ k * 10 * 10 ^ d.exponent :=
        mul_le_mul_of_nonneg_right hcoefficient (step_pos _).le
      _ = 10 ^ k * (10 ^ d.exponent * 10) := by ring
      _ ≤ 10 ^ k * 10 ^ gridExponent m k := mul_le_mul_of_nonneg_left hstep (by positivity)
      _ ≤ _ := mul_le_mul_of_nonneg_right hsteps hpos.le
  · -- it is on the grid
    obtain ⟨zeros, hzeros⟩ := Int.le.dest hle
    have heq : (d.coefficient : ℚ) * 10 ^ d.exponent =
        (d.coefficient * 10 ^ zeros : Nat) * 10 ^ gridExponent m k := by
      rw [← hzeros, zpow_add₀ (by norm_num), zpow_natCast]
      push_cast
      ring
    rw [heq, mul_le_mul_iff_left₀ hpos, mul_le_mul_iff_left₀ hpos]
    norm_cast
    omega

end Digits

/-! ## Seventeen digits -/

section Search

variable {m : Nat} {d : Decimal}

/-- What is very near to the value of a magnitude reads back. -/
theorem magnitude_eq_of_near (hm : 0 < m) (h : |d.toRat - worth m| * (2 * 10 ^ 16) ≤ worth m) :
    d.magnitude = m := by
  by_contra hne
  have hunit : (0 : ℚ) < 2 ^ unitPlace := by positivity
  have hunits : worth m * 2 ^ unitPlace = units m := div_mul_cancel₀ _ hunit.ne'
  have hapart := units_le_mul_sub hne
  have hclosest := d.isNearestInUnits_magnitude.closest m
  have htriangle :=
    abs_sub_le (units d.magnitude : ℚ) (d.toRat * 2 ^ unitPlace) (units m)
  rw [abs_sub_comm (units m : ℚ)] at hclosest
  have hscale : |d.toRat * 2 ^ unitPlace - units m| = |d.toRat - worth m| * 2 ^ unitPlace := by
    rw [← hunits, ← sub_mul, abs_mul, abs_of_pos hunit]
  have hscaled := mul_le_mul_of_nonneg_right h hunit.le
  rw [hunits, mul_right_comm, ← hscale] at hscaled
  have hpos : (0 : ℚ) < units m := Nat.cast_pos.2 (strictMono_units hm)
  linarith

/-- **With 17 digits a neighbour reads back.** -/
theorem exists_onGrid?_sixteen (hm : 0 < m) : ∃ chosen,
    onGrid? m (Binary64.numerator m) (1 <<< halvings m) (gridExponent m 16) = some chosen := by
  obtain ⟨hge, -⟩ := worth_bounds hm 16
  have hlower := lower_le_worth m (gridExponent m 16)
  have hupper := worth_lt_upper m (gridExponent m 16)
  have hstep := toRat_upper m (gridExponent m 16)
  rcases le_total (worth m - (lower m (gridExponent m 16)).toRat)
    ((upper m (gridExponent m 16)).toRat - worth m) with hnear | hnear
  · refine exists_onGrid? (.inl le_rfl) (magnitude_eq_of_near hm ?_)
    rw [abs_of_nonpos (by linarith)]
    linarith
  · refine exists_onGrid? (.inr le_rfl) (magnitude_eq_of_near hm ?_)
    rw [abs_of_pos (by linarith)]
    linarith

/-! ## The search -/

/-- The search ends on the first grid that has an answer. -/
theorem exists_search? (hm : 0 < m) : ∃ chosen k, search? m = some chosen ∧
    onGrid? m (Binary64.numerator m) (1 <<< halvings m) (gridExponent m k) = some chosen ∧
    ∀ j < k, onGrid? m (Binary64.numerator m) (1 <<< halvings m) (gridExponent m j) = none := by
  have hsearch : search? m = (List.range 17).findSome? fun k =>
      onGrid? m (Binary64.numerator m) (1 <<< halvings m) (gridExponent m k) := List.findSome?_map
  cases hchosen : search? m with
  | none =>
    obtain ⟨chosen, hlast⟩ := exists_onGrid?_sixteen hm
    rw [hsearch, List.findSome?_eq_none_iff] at hchosen
    rw [hchosen 16 (by decide)] at hlast
    cases hlast
  | some chosen =>
    rw [hsearch, List.findSome?_eq_some_iff] at hchosen
    obtain ⟨before, k, after, hrange, hk, hbefore⟩ := hchosen
    have hplace : ∀ j (hj : j ≤ before.length), (before ++ k :: after)[j]? = some j := by
      intro j hj
      have hlength := congrArg List.length hrange
      rw [List.length_append, List.length_cons, List.length_range] at hlength
      rw [← hrange, List.getElem?_range (by omega)]
    obtain rfl : k = before.length := by simpa using hplace before.length le_rfl
    refine ⟨chosen, before.length, rfl, hk, fun j hj => hbefore j ?_⟩
    have hmem := hplace j hj.le
    rw [List.getElem?_append_left hj] at hmem
    exact List.mem_of_getElem? hmem

end Search

/-- The decimal reads back as a magnitude.  None that does has fewer digits, and none that does with
as many digits is better. -/
structure IsShortest (m : Nat) (d : Decimal) : Prop where
  reads : d.magnitude = m
  fewest : ∀ d' : Decimal, d'.magnitude = m → d.digitCount ≤ d'.digitCount
  best : ∀ d' : Decimal, d'.magnitude = m → d'.digitCount = d.digitCount → IsAsGood m d d'

theorem isShortest_zero : IsShortest 0 ⟨0, 0⟩ where
  reads := magnitude_zero
  fewest d' _ := d'.digitCount_pos
  best d' _ _ := by
    have hzero : (⟨0, 0⟩ : Decimal).toRat = 0 := by rw [toRat_eq, Nat.cast_zero, zero_mul]
    rw [IsAsGood, hzero, worth_zero, sub_zero, sub_zero, abs_zero]
    exact (abs_nonneg d'.toRat).lt_or_eq.imp_right fun heq =>
      ⟨heq, (abs_eq_zero.1 heq.symm).le⟩

/-- **The decimal that a number is written with is the shortest.** -/
theorem isShortest_shortest (m : Nat) : IsShortest m (shortest m) := by
  rcases Nat.eq_zero_or_pos m with rfl | hm
  · exact isShortest_zero
  obtain ⟨chosen, k, hsearch, hchosen, hnone⟩ := exists_search? hm
  rw [shortest, if_neg hm.ne', hsearch, Option.getD_some]
  -- a decimal with fewer digits than the grid would have been met on an earlier one
  have hfewest : ∀ d' : Decimal, d'.magnitude = m → k + 1 ≤ d'.digitCount := by
    intro d' h
    refine Nat.le_of_not_lt fun hlt => ?_
    have hpos := d'.digitCount_pos
    have hclears : Clears m (gridExponent m (d'.digitCount - 1)) d' :=
      clears_of_digitCount hm (by omega)
    obtain ⟨earlier, hearlier⟩ := exists_onGrid? hclears h
    rw [hnone _ (by omega)] at hearlier
    cases hearlier
  have hcount := digitCount_of_onGrid? hm hchosen
  exact ⟨magnitude_of_onGrid? hchosen, fun d' h => hcount.trans (hfewest d' h),
    fun d' h heq => isAsGood_of_onGrid? hchosen (clears_of_digitCount hm (heq ▸ hcount)) h⟩

end Decimal
end Calculator
