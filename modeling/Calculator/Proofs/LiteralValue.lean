import Calculator.Proofs.Failure
import Calculator.Proofs.Misreading
import Calculator.Proofs.Rounding

/-!
# Literals are read exactly

A run of digits and dots is a text of its own, with a minus sign before it or without.  It is
evaluated as the one literal in it (`evaluate_runText`), so all there is to show is what a literal
is worth.

* `Decimal.toRat_ofRun` — a numeral is read as the decimal of its value, which `numeralValue` counts
  place by place.
* `Decimal.isNearest_rounded`, `Decimal.isFinite_rounded_iff` — a decimal is rounded to the nearest
  number, or too large for one.
* `evaluate_runText_congr` — the outcome depends on the value alone, so zeros that do not count make
  no difference.
* `literals_are_read_exactly` — all of it for a text.
-/

set_option autoImplicit false

namespace Calculator

/-! ## The value of a numeral -/

theorem foldl_wholeValue (digits : List Char) (init : Nat) :
    digits.foldl (fun (value : ℚ) c => 10 * value + digitValue c) init =
      Nat.ofDigitChars 10 digits init := by
  induction digits generalizing init with
  | nil => rfl
  | cons c digits ih =>
    rw [Nat.ofDigitChars_cons, ← ih, List.foldl_cons, digitValue]
    push_cast
    rfl

theorem wholeValue_eq (digits : List Char) :
    wholeValue digits = Nat.ofDigitChars 10 digits 0 := by
  rw [wholeValue, ← foldl_wholeValue, Nat.cast_zero]

/-- Every digit after the dot is worth a tenth of what it is worth without the dot. -/
theorem ofDigitChars_div_eq (places : List Char) (init : Nat) :
    (Nat.ofDigitChars 10 places init : ℚ) / 10 ^ places.length = init + placesValue places := by
  induction places generalizing init with
  | nil => simp [placesValue]
  | cons c places ih =>
    rw [Nat.ofDigitChars_cons, List.length_cons, pow_succ, ← div_div, ih, placesValue, digitValue]
    push_cast
    ring

namespace Decimal

variable {run : List Char}

/-- **The decimal that a numeral is written for has its value.** -/
theorem toRat_ofRun (h : Grammar.IsRun run) (hnumeral : IsNumeral run) :
    (ofRun run).toRat = numeralValue run := by
  rcases exists_split_dot h.all with hwhole | ⟨whole, places, rfl, hwhole, hplaces⟩
  · have htake : (run ++ []).takeWhile (· != '.') = run ++ [].takeWhile (· != '.') :=
      List.takeWhile_append_of_pos fun c hc => ne_dot_of_isDigit (hwhole c hc)
    have hdrop : (run ++ []).dropWhile (· != '.') = [].dropWhile (· != '.') :=
      List.dropWhile_append_of_pos fun c hc => ne_dot_of_isDigit (hwhole c hc)
    rw [List.append_nil] at htake hdrop
    rw [ofRun_whole hwhole, numeralValue, htake, hdrop, wholeValue_eq]
    simp [toRat, numerator, denominator, placesValue]
  · have hdigits := ((isNumeral_split_iff hwhole hplaces).1 hnumeral).2
    rw [ofRun_point hwhole hdigits, numeralValue,
      List.takeWhile_append_of_pos fun c hc => ne_dot_of_isDigit (hwhole c hc),
      List.dropWhile_append_of_pos fun c hc => ne_dot_of_isDigit (hwhole c hc)]
    simp [toRat, numerator, denominator, wholeValue_eq, ← ofDigitChars_div_eq,
      Nat.ofDigitChars_append]

/-! ## Rounding a decimal -/

/-- **A decimal is too large for a number** from half way between the largest finite number and the
power of two after it. -/
theorem isFinite_rounded_iff (d : Decimal) :
    d.rounded.IsFinite ↔ d.toRat < 2 ^ 1024 - 2 ^ 970 := by
  have hpos : (0 : ℚ) < 2 ^ Binary64.unitPlace := by positivity
  have hhalf : (2 : ℚ) ^ 53 * 2 ^ Binary64.topScale - 2 ^ Binary64.topScale / 2 =
      (2 ^ 1024 - 2 ^ 970) * 2 ^ Binary64.unitPlace := by
    have htop : (2 : ℚ) ^ Binary64.topScale = 2 * 2 ^ 970 * 2 ^ Binary64.unitPlace := by
      rw [← pow_succ', ← pow_add]
      rfl
    have hpower : (2 : ℚ) ^ 1024 = 2 ^ 54 * 2 ^ 970 := by rw [← pow_add]
    rw [htop, hpower]
    generalize (2 : ℚ) ^ 970 = a
    generalize (2 : ℚ) ^ Binary64.unitPlace = b
    ring
  have hmin : d.rounded.IsFinite ↔ d.magnitude < Binary64.infinityMagnitude := by
    show min d.magnitude Binary64.infinityMagnitude < _ ↔ _
    omega
  rw [hmin, d.isNearestInUnits_magnitude.lt_infinityMagnitude_iff, hhalf, mul_lt_mul_iff_left₀ hpos]

/-- **A decimal is rounded to the number nearest to it.** -/
theorem isNearest_rounded {d : Decimal} (h : d.rounded.IsFinite) :
    d.rounded.IsNearest d.toRat := by
  have hmagnitude : d.rounded.magnitude = d.magnitude := by
    have hlt : min d.magnitude Binary64.infinityMagnitude < Binary64.infinityMagnitude := h
    show min d.magnitude Binary64.infinityMagnitude = _
    omega
  have hunits := d.isNearestInUnits_magnitude
  rw [← hmagnitude] at hunits
  exact hunits.isNearest h rfl d.toRat_nonneg

end Decimal

/-! ## Zeros that do not count -/

section Zeros

open Grammar

variable {run : List Char} (zeros : Nat)

theorem isNumeral_zeros_append (h : IsNumeral run) :
    IsNumeral (List.replicate zeros '0' ++ run) := by
  obtain ⟨⟨c, hc, hdigit⟩, hdots⟩ := h
  refine ⟨⟨c, List.mem_append_right _ hc, hdigit⟩, ?_⟩
  rwa [List.count_append, List.count_replicate, if_neg (by decide), Nat.zero_add]

theorem isNumeral_append_zeros (h : IsNumeral run) :
    IsNumeral (run ++ List.replicate zeros '0') := by
  obtain ⟨⟨c, hc, hdigit⟩, hdots⟩ := h
  refine ⟨⟨c, List.mem_append_left _ hc, hdigit⟩, ?_⟩
  rwa [List.count_append, List.count_replicate, if_neg (by decide), Nat.add_zero]

theorem isNumeralChar_of_mem_zeros : ∀ c ∈ List.replicate zeros '0', isNumeralChar c = true := by
  intro c hc
  rw [List.eq_of_mem_replicate hc]
  decide

theorem isRun_zeros_append (h : IsRun run) : IsRun (List.replicate zeros '0' ++ run) :=
  ⟨List.append_ne_nil_of_right_ne_nil _ h.ne_nil,
    List.forall_mem_append.2 ⟨isNumeralChar_of_mem_zeros zeros, h.all⟩⟩

theorem isRun_append_zeros (h : IsRun run) : IsRun (run ++ List.replicate zeros '0') :=
  ⟨List.append_ne_nil_of_left_ne_nil h.ne_nil _,
    List.forall_mem_append.2 ⟨h.all, isNumeralChar_of_mem_zeros zeros⟩⟩

/-- Zeros at the beginning are worth nothing. -/
theorem numeralValue_zeros_append (run : List Char) :
    numeralValue (List.replicate zeros '0' ++ run) = numeralValue run := by
  have hdot : ∀ c ∈ List.replicate zeros '0', (c != '.') = true := by
    intro c hc
    rw [List.eq_of_mem_replicate hc]
    decide
  rw [numeralValue, List.takeWhile_append_of_pos hdot, List.dropWhile_append_of_pos hdot,
    wholeValue_eq, Nat.ofDigitChars_append, Nat.ofDigitChars_replicate_zero, Nat.mul_zero,
    ← wholeValue_eq, numeralValue]

theorem placesValue_zeros : placesValue (List.replicate zeros '0') = 0 := by
  induction zeros with
  | zero => rfl
  | succ zeros ih =>
    rw [List.replicate_succ, placesValue, ih]
    simp [digitValue]

theorem placesValue_append_zeros (places : List Char) :
    placesValue (places ++ List.replicate zeros '0') = placesValue places := by
  induction places with
  | nil => rw [List.nil_append, placesValue_zeros, placesValue]
  | cons c places ih => rw [List.cons_append, placesValue, placesValue, ih]

/-- Zeros at the end are worth nothing, if there is a dot before them. -/
theorem numeralValue_append_zeros (h : IsRun run) (hdot : '.' ∈ run) :
    numeralValue (run ++ List.replicate zeros '0') = numeralValue run := by
  rcases exists_split_dot h.all with hwhole | ⟨whole, places, rfl, hwhole, -⟩
  · exact absurd (hwhole _ hdot) (by decide)
  · have htake : ∀ tail : List Char,
        numeralValue (whole ++ '.' :: tail) = wholeValue whole + placesValue tail := by
      intro tail
      rw [numeralValue, List.takeWhile_append_of_pos fun c hc => ne_dot_of_isDigit (hwhole c hc),
        List.dropWhile_append_of_pos fun c hc => ne_dot_of_isDigit (hwhole c hc)]
      simp
    rw [List.append_assoc, List.cons_append, htake, htake, placesValue_append_zeros]

end Zeros

/-! ## A run as a text of its own -/

section Run

open Calculator.Expr Grammar

variable {run : List Char} (negative : Bool)

/-- A run as a text, with a minus sign before it or without. -/
def runText (run : List Char) : String := String.ofList (if negative then '-' :: run else run)

/-- The place of the run in its text. -/
def runPosition : Nat := if negative then 1 else 0

theorem isExpr_runText (h : IsRun run) :
    IsExpr 0 (if negative then '-' :: run else run)
      (number ⟨negative, run, runPosition negative⟩) := by
  cases negative with
  | false => exact (IsOperand.run h).isExpr
  | true => exact (IsOperand.negatedRun h).isExpr

/-- **A run is evaluated as the literal that it is.** -/
theorem evaluate_runText (h : IsRun run) :
    evaluate (runText negative run) = Literal.value ⟨negative, run, runPosition negative⟩ := by
  have hexpr := isExpr_runText negative h
  have hparse : parse (runText negative run) =
      (Literal.value ⟨negative, run, runPosition negative⟩).map number := by
    rw [runText, parse_ofList (Normal.validate_of_isExpr hexpr (Nat.zero_le _)), Expr.parse,
      ofText_of_isExpr hexpr]
    rfl
  rw [evaluate, hparse]
  cases Literal.value ⟨negative, run, runPosition negative⟩ with
  | error failure => rfl
  | ok value => rfl

/-- Numerals of one value are evaluated alike. -/
theorem evaluate_runText_congr {run' : List Char} (h : IsRun run) (h' : IsRun run')
    (hnumeral : IsNumeral run) (hnumeral' : IsNumeral run')
    (hvalue : numeralValue run' = numeralValue run) :
    evaluate (runText negative run') = evaluate (runText negative run) := by
  have hmagnitude : (Decimal.ofRun run').magnitude = (Decimal.ofRun run).magnitude := by
    refine Decimal.magnitude_congr ?_
    rw [Decimal.toRat_ofRun h hnumeral, Decimal.toRat_ofRun h' hnumeral', hvalue]
  have hd := (Decimal.ofNumeral?_eq_some_iff h).2 ⟨hnumeral, rfl⟩
  have hd' := (Decimal.ofNumeral?_eq_some_iff h').2 ⟨hnumeral', rfl⟩
  rw [evaluate_runText negative h, evaluate_runText negative h', Literal.value, Literal.value, hd,
    hd']
  simp only [Decimal.toBinary64?, hmagnitude]

/-- **Literals are read exactly**, however many digits they have.  A run that is no numeral is
reported with its place.  A numeral is too large from half way between the largest finite number and
the power of two after it.  Any other is read as the one number that is nearest to it, of two
equally near the even one, and has the sign that stands before it.  Zeros at the beginning, and
zeros at the end of the places, change nothing. -/
theorem literals_are_read_exactly (h : IsRun run) :
    (evaluate (runText negative run) =
        .error (.malformedOperand (String.ofList run) (runPosition negative)) ↔
      ¬ IsNumeral run) ∧
    (IsNumeral run →
      (evaluate (runText negative run) = .error .overflow ↔
        2 ^ 1024 - 2 ^ 970 ≤ numeralValue run) ∧
      (numeralValue run < 2 ^ 1024 - 2 ^ 970 →
        ∃ x : Binary64, x.negative = false ∧ x.IsNearest (numeralValue run) ∧
          (∀ y : Binary64, y.negative = false → y.IsNearest (numeralValue run) → y = x) ∧
          evaluate (runText negative run) = .ok (if negative then -x else x)) ∧
      ∀ zeros,
        evaluate (runText negative (List.replicate zeros '0' ++ run)) =
          evaluate (runText negative run) ∧
        ('.' ∈ run → evaluate (runText negative (run ++ List.replicate zeros '0')) =
          evaluate (runText negative run))) := by
  refine ⟨?malformed, fun hnumeral => ⟨?overflow, ?value, fun zeros => ⟨?leading, ?trailing⟩⟩⟩
  case malformed =>
    rw [evaluate_runText negative h, Literal.value_eq_error_iff h]
    simp
  case overflow =>
    rw [evaluate_runText negative h, Literal.value_eq_error_iff h]
    simp [hnumeral, Decimal.isFinite_rounded_iff, Decimal.toRat_ofRun h hnumeral]
  case value =>
    intro hlt
    rw [← Decimal.toRat_ofRun h hnumeral] at hlt ⊢
    have hfinite := (Decimal.isFinite_rounded_iff _).2 hlt
    have hnearest := Decimal.isNearest_rounded hfinite
    refine ⟨(Decimal.ofRun run).rounded, rfl, hnearest, fun y hsign hy =>
      hy.unique hnearest hsign rfl, ?_⟩
    rw [evaluate_runText negative h, Literal.value_eq_ok_iff h, Literal.isFinite_denoted]
    exact ⟨⟨hnumeral, hfinite⟩, rfl⟩
  case leading =>
    exact evaluate_runText_congr negative h (isRun_zeros_append zeros h) hnumeral
      (isNumeral_zeros_append zeros hnumeral) (numeralValue_zeros_append zeros run)
  case trailing =>
    intro hdot
    exact evaluate_runText_congr negative h (isRun_append_zeros zeros h) hnumeral
      (isNumeral_append_zeros zeros hnumeral) (numeralValue_append_zeros zeros h hdot)

/-- `9007199254740993.` lies half way between two numbers, and the even one is the lower. -/
theorem literals_are_read_exactly_tie :
    IsRun "9007199254740993.".toList ∧ IsNumeral "9007199254740993.".toList ∧
      numeralValue "9007199254740993.".toList = 9007199254740993 ∧
      (9007199254740993 : ℚ) < 2 ^ 1024 - 2 ^ 970 ∧
      (Binary64.ofBits 0x4340000000000000).IsNearest 9007199254740993 ∧
      evaluate "-9007199254740993." = .ok (-.ofBits 0x4340000000000000) ∧
      '.' ∈ "9007199254740993.".toList ∧
      evaluate "-9007199254740993.00" = .ok (-.ofBits 0x4340000000000000) := by
  have hrun : IsRun "9007199254740993.".toList := ⟨by decide, List.all_eq_true.1 (by decide)⟩
  have hnumeral : IsNumeral "9007199254740993.".toList := ⟨⟨'9', by decide, by decide⟩, by decide⟩
  have hvalue : numeralValue "9007199254740993.".toList = 9007199254740993 := by
    have hdecimal : Decimal.ofRun "9007199254740993.".toList = ⟨9007199254740993, 0⟩ := by decide
    rw [← Decimal.toRat_ofRun hrun hnumeral, hdecimal]
    simp [Decimal.toRat, Decimal.numerator, Decimal.denominator]
  have hlt : (9007199254740993 : ℚ) < 2 ^ 1024 - 2 ^ 970 := by
    rw [← hvalue, ← Decimal.toRat_ofRun hrun hnumeral]
    exact (Decimal.isFinite_rounded_iff _).1 (by decide +kernel)
  obtain ⟨-, hexact⟩ := literals_are_read_exactly true hrun
  obtain ⟨-, hnearest, hzeros⟩ := hexact hnumeral
  rw [hvalue] at hnearest
  obtain ⟨x, hsign, hx, -, hx'⟩ := hnearest hlt
  have hbits : evaluate "-9007199254740993." = .ok (-.ofBits 0x4340000000000000) :=
    (evaluate_runText true hrun).trans (Literal.value_eq_ok rfl (by decide +kernel))
  have heq : -x = -.ofBits 0x4340000000000000 := Except.ok.inj (hx'.symm.trans hbits)
  have hxbits : x = .ofBits 0x4340000000000000 := by
    rw [← Binary64.neg_neg x, heq, Binary64.neg_neg]
  exact ⟨hrun, hnumeral, hvalue, hlt, hxbits ▸ hx, hbits, by decide,
    ((hzeros 2).2 (by decide)).trans hbits⟩

end Run
end Calculator
