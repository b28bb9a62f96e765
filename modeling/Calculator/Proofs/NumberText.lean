import Calculator.Decimal.Layout
import Calculator.Expr.Grammar

/-!
# Reading the text of a number

The text of a finite number is a sign, if it is negative, and digits, with a dot between them if
there are places (`isPlain_text`).  Reading the digits gives back the magnitude, and the sign before
them the number, bit for bit: `value_digits`.  A zero keeps its sign on the way, since the sign is
never part of the run.  So no other number has the same text (`eq_of_text_eq`).

The shortest decimal of a magnitude reads back as it, whatever its digits are
(`Decimal.magnitude_shortest`), so all that is left is the layout: padding with zeros and the place
of the dot do not change the value of a decimal (`ofNumeral?_positional`).
-/

set_option autoImplicit false

namespace Calculator

/-! ## Numerals -/

theorem isNumeralChar_of_isDigit {c : Char} (h : c.isDigit = true) : isNumeralChar c = true := by
  rw [isNumeralChar, h, Bool.true_or]

theorem ne_dot_of_isDigit {c : Char} (h : c.isDigit = true) : (c != '.') = true := by
  rw [bne_iff_ne]
  rintro rfl
  exact absurd h (by decide)

namespace Decimal

/-- A numeral without a dot. -/
theorem ofNumeral?_whole {whole : List Char} (hne : whole ≠ [])
    (hw : ∀ c ∈ whole, c.isDigit = true) :
    ofNumeral? whole = some ⟨Nat.ofDigitChars 10 whole 0, 0⟩ := by
  have htake : (whole ++ []).takeWhile (· != '.') = whole ++ [].takeWhile (· != '.') :=
    List.takeWhile_append_of_pos fun c hc => ne_dot_of_isDigit (hw c hc)
  have hdrop : (whole ++ []).dropWhile (· != '.') = [].dropWhile (· != '.') :=
    List.dropWhile_append_of_pos fun c hc => ne_dot_of_isDigit (hw c hc)
  simp only [List.append_nil, List.takeWhile_nil, List.dropWhile_nil] at htake hdrop
  rw [ofNumeral?, htake, hdrop]
  simpa [hne] using hw

/-- A numeral with a dot. -/
theorem ofNumeral?_point {whole places : List Char} (hne : whole ++ places ≠ [])
    (hw : ∀ c ∈ whole, c.isDigit = true) (hp : ∀ c ∈ places, c.isDigit = true) :
    ofNumeral? (whole ++ '.' :: places) =
      some ⟨Nat.ofDigitChars 10 (whole ++ places) 0, -places.length⟩ := by
  rw [ofNumeral?, List.takeWhile_append_of_pos fun c hc => ne_dot_of_isDigit (hw c hc),
    List.dropWhile_append_of_pos fun c hc => ne_dot_of_isDigit (hw c hc)]
  have hall : ∀ c ∈ whole ++ places, c.isDigit = true := fun c hc =>
    (List.mem_append.1 hc).elim (hw c) (hp c)
  simp [hne, List.all_eq_true.2 hall]

/-! ## Positional digits -/

theorem isDigit_of_mem_toDigits {n : Nat} {c : Char} (h : c ∈ Nat.toDigits 10 n) :
    c.isDigit = true :=
  Nat.isDigit_of_mem_toDigits (by decide) (by decide) h

/-- One or more digits. -/
structure IsDigits (digits : List Char) : Prop where
  ne_nil : digits ≠ []
  all : ∀ c ∈ digits, c.isDigit = true

theorem IsDigits.isNumeralChar {digits : List Char} (h : IsDigits digits) :
    ∀ c ∈ digits, isNumeralChar c = true :=
  fun c hc => isNumeralChar_of_isDigit (h.all c hc)

/-- A digit is the digit of its value. -/
theorem toDigits_digit {c : Char} (h : c.isDigit = true) :
    c.toNat - '0'.toNat < 10 ∧ Nat.toDigits 10 (c.toNat - '0'.toNat) = [c] := by
  have hbounds : 48 ≤ c.toNat ∧ c.toNat ≤ 57 := Char.isDigit_iff_toNat.1 h
  have hlt : c.toNat - '0'.toNat < 10 := by
    show c.toNat - 48 < 10
    omega
  refine ⟨hlt, ?_⟩
  rw [Nat.toDigits_of_lt_base hlt, List.singleton_inj, ← Char.toNat_inj,
    Nat.toNat_digitChar_of_lt_ten hlt]
  show 48 + (c.toNat - 48) = c.toNat
  omega

theorem toDigits_append_digits {digits : List Char} (h : ∀ c ∈ digits, c.isDigit = true) {n : Nat}
    (hn : 0 < n) :
    Nat.toDigits 10 n ++ digits = Nat.toDigits 10 (Nat.ofDigitChars 10 digits n) := by
  induction digits generalizing n with
  | nil => rw [Nat.ofDigitChars_nil, List.append_nil]
  | cons c digits ih =>
    obtain ⟨hlt, hc⟩ := toDigits_digit (h c (.head _))
    rw [Nat.ofDigitChars_cons, ← ih (fun c hc => h c (.tail _ hc)) (by omega),
      ← Nat.toDigits_append_toDigits (by decide) hn hlt, hc, List.append_assoc,
      List.singleton_append]

/-- **Digits are those of their value**, perhaps with zeros before them. -/
theorem IsDigits.exists_zeros {digits : List Char} (h : IsDigits digits) :
    ∃ zeros, digits =
      List.replicate zeros '0' ++ Nat.toDigits 10 (Nat.ofDigitChars 10 digits 0) := by
  obtain ⟨hne, hall⟩ := h
  induction digits with
  | nil => exact absurd rfl hne
  | cons c digits ih =>
    obtain ⟨hlt, hc⟩ := toDigits_digit (hall c (.head _))
    have hdigits : ∀ c ∈ digits, c.isDigit = true := fun c hc => hall c (.tail _ hc)
    rw [Nat.ofDigitChars_cons, Nat.mul_zero, Nat.zero_add]
    rcases Nat.eq_zero_or_pos (c.toNat - '0'.toNat) with hzero | hpos
    · rw [hzero] at hc ⊢
      obtain rfl : '0' = c := List.singleton_inj.1 hc
      by_cases hnil : digits = []
      · exact ⟨0, by rw [hnil]; rfl⟩
      · obtain ⟨zeros, hzeros⟩ := ih hnil hdigits
        exact ⟨zeros + 1, by rw [List.replicate_succ, List.cons_append, ← hzeros]⟩
    · refine ⟨0, ?_⟩
      rw [← toDigits_append_digits hdigits hpos, hc]
      rfl

/-- A decimal without places is written as its coefficient with zeros at the end. -/
theorem isDigits_positional (coefficient zeros : Nat) :
    IsDigits (positional ⟨coefficient, .ofNat zeros⟩) := by
  rw [positional]
  refine ⟨by simp [Nat.toDigits_ne_nil], fun c hc => ?_⟩
  rcases List.mem_append.1 hc with hc | hc
  · exact isDigit_of_mem_toDigits hc
  · rw [List.eq_of_mem_replicate hc]
    decide

/-- A decimal with places has digits on both sides of the point, which are those of the coefficient
and perhaps zeros before them. -/
theorem exists_point (coefficient k : Nat) :
    ∃ whole places, positional ⟨coefficient, .negSucc k⟩ = whole ++ '.' :: places ∧
      IsDigits whole ∧ IsDigits places ∧ places.length = k + 1 ∧
      Nat.ofDigitChars 10 (whole ++ places) 0 = coefficient := by
  let padded :=
    List.replicate (k + 1 + 1 - (Nat.toDigits 10 coefficient).length) '0' ++
      Nat.toDigits 10 coefficient
  have hlength : k + 1 < padded.length := by
    simp only [padded, List.length_append, List.length_replicate]
    omega
  have hvalue : Nat.ofDigitChars 10 padded 0 = coefficient := by
    simp [padded, Nat.ofDigitChars_append, Nat.ofDigitChars_ten_toDigits]
  have hall : ∀ c ∈ padded, c.isDigit = true := by
    intro c hc
    rcases List.mem_append.1 hc with hc | hc
    · rw [List.eq_of_mem_replicate hc]
      decide
    · exact isDigit_of_mem_toDigits hc
  refine ⟨padded.take (padded.length - (k + 1)), padded.drop (padded.length - (k + 1)), rfl,
    ⟨?_, fun c hc => hall c (List.mem_of_mem_take hc)⟩,
    ⟨?_, fun c hc => hall c (List.mem_of_mem_drop hc)⟩, ?_, ?_⟩
  · refine List.ne_nil_of_length_pos ?_
    rw [List.length_take]
    omega
  · refine List.ne_nil_of_length_pos ?_
    rw [List.length_drop]
    omega
  · rw [List.length_drop]
    omega
  · rw [List.take_append_drop, hvalue]

/-- **The positional digits of a decimal are a numeral for its value.** -/
theorem ofNumeral?_positional (d : Decimal) :
    ∃ d', ofNumeral? d.positional = some d' ∧ d'.magnitude = d.magnitude := by
  obtain ⟨coefficient, exponent⟩ := d
  cases exponent with
  | ofNat zeros =>
    have hdigits := isDigits_positional coefficient zeros
    refine ⟨_, ofNumeral?_whole hdigits.ne_nil hdigits.all, ?_⟩
    simp [positional, magnitude, numerator, denominator, Nat.ofDigitChars_append,
      Nat.ofDigitChars_ten_toDigits, Nat.mul_comm]
  | negSucc k =>
    obtain ⟨whole, places, htext, hwhole, hplaces, hlength, hvalue⟩ := exists_point coefficient k
    rw [htext]
    refine ⟨_, ofNumeral?_point (by simp [hwhole.ne_nil]) hwhole.all hplaces.all, ?_⟩
    rw [hvalue, hlength]
    rfl

/-- The positional digits of a decimal are a run. -/
theorem isRun_positional (d : Decimal) : Grammar.IsRun d.positional := by
  obtain ⟨coefficient, exponent⟩ := d
  cases exponent with
  | ofNat zeros =>
    have hdigits := isDigits_positional coefficient zeros
    exact ⟨hdigits.ne_nil, hdigits.isNumeralChar⟩
  | negSucc k =>
    obtain ⟨whole, places, htext, hwhole, hplaces, -⟩ := exists_point coefficient k
    rw [htext]
    refine ⟨by simp, List.forall_mem_append.2 ⟨hwhole.isNumeralChar, ?_⟩⟩
    exact List.forall_mem_cons.2 ⟨by decide, hplaces.isNumeralChar⟩

end Decimal

/-! ## The text of a number -/

theorem Literal.value_eq_ok {literal : Literal} {d : Decimal} {value : Binary64}
    (hd : Decimal.ofNumeral? literal.run = some d) (hv : d.toBinary64? = some value) :
    literal.value = .ok (if literal.negative then -value else value) := by
  rw [Literal.value, hd]
  simp only [hv]

namespace Binary64

theorem neg_mk (negative : Bool) (magnitude : Nat) (h : magnitude < signPlace) :
    -(⟨negative, magnitude, h⟩ : Binary64) = ⟨!negative, magnitude, h⟩ := rfl

/-- The digits of a finite number, without its sign. -/
def digits (x : Binary64) : List Char := (Decimal.shortest x.magnitude).positional

theorem isRun_digits (x : Binary64) : Grammar.IsRun x.digits := Decimal.isRun_positional _

/-- A finite number is written as its digits, after a minus sign if it is negative. -/
theorem toList_text {x : Binary64} (h : x.IsFinite) :
    x.text.toList = if x.negative then '-' :: x.digits else x.digits := by
  have hnan : ¬ x.IsNaN := fun hn => absurd (Nat.lt_trans h hn) (Nat.lt_irrefl _)
  rw [text, signed, if_neg hnan, if_pos h, String.toList_ofList, digits]

/-- **The digits of a finite number are read as that number, with the sign that stands before
them.** -/
theorem value_digits {x : Binary64} (h : x.IsFinite) (position : Nat) :
    Literal.value ⟨x.negative, x.digits, position⟩ = .ok x := by
  obtain ⟨d, hd, hm⟩ := Decimal.ofNumeral?_positional (Decimal.shortest x.magnitude)
  rw [Decimal.magnitude_shortest] at hm
  have hb : d.toBinary64? = some ⟨false, x.magnitude, x.magnitude_lt⟩ := by
    have hlt : d.magnitude < infinityMagnitude := hm ▸ h
    rw [Decimal.toBinary64?, dif_pos hlt]
    simp only [hm]
  rw [Literal.value_eq_ok hd hb]
  obtain ⟨negative, magnitude, magnitude_lt⟩ := x
  cases negative with
  | false => rfl
  | true => rw [if_pos rfl, neg_mk, Bool.not_false]

/-- A text with a minus sign or none, with digits, and with a point and more digits or without:
there is no exponent. -/
inductive IsPlain : List Char → Prop
  | whole {sign digits : List Char} (sign_or : sign = [] ∨ sign = ['-'])
      (h : Decimal.IsDigits digits) : IsPlain (sign ++ digits)
  | point {sign whole places : List Char} (sign_or : sign = [] ∨ sign = ['-'])
      (hwhole : Decimal.IsDigits whole) (hplaces : Decimal.IsDigits places) :
      IsPlain (sign ++ (whole ++ '.' :: places))

/-- **A finite number is written without an exponent.** -/
theorem isPlain_text {x : Binary64} (h : x.IsFinite) : IsPlain x.text.toList := by
  obtain ⟨sign, hsign, htext⟩ : ∃ sign, (sign = [] ∨ sign = ['-']) ∧
      x.text.toList = sign ++ x.digits := by
    rw [toList_text h]
    cases x.negative with
    | false => exact ⟨[], .inl rfl, rfl⟩
    | true => exact ⟨['-'], .inr rfl, rfl⟩
  rw [htext, digits]
  obtain ⟨coefficient, exponent⟩ := Decimal.shortest x.magnitude
  cases exponent with
  | ofNat zeros => exact .whole hsign (Decimal.isDigits_positional coefficient zeros)
  | negSucc k =>
    obtain ⟨whole, places, hpoint, hwhole, hplaces, -⟩ := Decimal.exists_point coefficient k
    rw [hpoint]
    exact .point hsign hwhole hplaces

/-! ## Different texts -/

variable {x y : Binary64}

/-- The text of a finite number has no letters. -/
theorem eq_minus_or_isNumeralChar_of_mem_text (h : x.IsFinite) :
    ∀ c ∈ x.text.toList, c = '-' ∨ isNumeralChar c = true := by
  intro c hc
  rw [toList_text h] at hc
  cases hn : x.negative with
  | false =>
    rw [hn] at hc
    exact .inr (x.isRun_digits.all c hc)
  | true =>
    rw [hn] at hc
    rcases List.mem_cons.1 hc with rfl | hc
    · exact .inl rfl
    · exact .inr (x.isRun_digits.all c hc)

/-- What is not finite is written in letters. -/
theorem isFinite_of_text (h : ∀ c ∈ x.text.toList, c = '-' ∨ isNumeralChar c = true) :
    x.IsFinite := by
  refine Decidable.byContradiction fun hx => ?_
  rw [text, signed, if_neg hx] at h
  split at h
  · exact absurd (h 'N' (by decide)) (by decide)
  · rw [String.toList_ofList] at h
    refine absurd (h 'n' ?_) (by decide)
    split <;> decide

theorem negative_eq_true_iff (h : x.IsFinite) : x.negative = true ↔ '-' ∈ x.text.toList := by
  have hdigits : '-' ∉ x.digits := fun hmem => absurd (x.isRun_digits.all _ hmem) (by decide)
  rw [toList_text h]
  cases x.negative with
  | false => simpa using hdigits
  | true => simp

/-- **The text of a finite number is that of no other number.** -/
theorem eq_of_text_eq (hx : x.IsFinite) (h : x.text = y.text) : x = y := by
  have hy : y.IsFinite := isFinite_of_text (h ▸ eq_minus_or_isNumeralChar_of_mem_text hx)
  have hnegative : x.negative = y.negative := by
    rw [Bool.eq_iff_iff, negative_eq_true_iff hx, negative_eq_true_iff hy, h]
  have hdigits : x.digits = y.digits := by
    have htext := congrArg String.toList h
    rw [toList_text hx, toList_text hy, hnegative] at htext
    cases hn : y.negative with
    | false => simpa [hn] using htext
    | true => simpa [hn] using htext
  have hvalue := value_digits hx 0
  rw [hnegative, hdigits, value_digits hy 0] at hvalue
  exact (Except.ok.inj hvalue).symm

end Binary64
end Calculator
