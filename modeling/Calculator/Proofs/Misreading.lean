import Calculator.Expr.Misreading
import Calculator.Proofs.Matcher
import Calculator.Proofs.Meaning

/-!
# The errors of the parser

`Expr.parse` fails with the error that `Grammar.Misreading` says, and only then
(`parse_eq_error_iff_misreading`).

* A text that is no expression is misread by the machine, which stops at the end of the longest
  beginning that some expression has (`Expr.ofText_eq_error_iff`).
* Otherwise there is a tree of literals, and its literals are replaced by their values from left to
  right.  They are the runs of the text in the same order (`listsRuns_of_isExpr`), so the first that
  has no value is the leftmost run that has none.

That the two agree in one direction is enough: a text has no two misreadings (`Misreading.unique`),
and none if it is read.
-/

set_option autoImplicit false

namespace Calculator

open Grammar

/-! ## Runs without a value -/

namespace Literal

theorem exists_value_iff {literal : Literal} (h : IsRun literal.run) :
    (∃ value, literal.value = .ok value) ↔ HasValue literal.run := by
  simp only [value_eq_ok_iff h, isFinite_denoted]
  exact ⟨fun ⟨_, hvalue, _⟩ => ⟨hvalue.1, hvalue.2⟩,
    fun hvalue => ⟨_, ⟨hvalue.numeral, hvalue.finite⟩, rfl⟩⟩

/-- A run that is no numeral is reported with its place, and one that is too large is not. -/
theorem value_eq_error_iff {literal : Literal} (h : IsRun literal.run) {failure : EvalError} :
    literal.value = .error failure ↔
      (¬ IsNumeral literal.run ∧
        failure = .malformedOperand (String.ofList literal.run) literal.position) ∨
      (IsNumeral literal.run ∧ ¬ (Decimal.ofRun literal.run).rounded.IsFinite ∧
        failure = .overflow) := by
  by_cases hnumeral : IsNumeral literal.run
  · have hd := (Decimal.ofNumeral?_eq_some_iff h).2 ⟨hnumeral, rfl⟩
    by_cases hfinite : (Decimal.ofRun literal.run).rounded.IsFinite
    · have hb := Decimal.toBinary64?_eq_some_iff.2 ⟨hfinite, rfl⟩
      simp only [Literal.value, hd, hb, hnumeral, hfinite, not_true_eq_false, false_and, and_false,
        or_self, reduceCtorEq]
    · have hb : (Decimal.ofRun literal.run).toBinary64? = none :=
        Option.eq_none_iff_forall_ne_some.2 fun x hx =>
          hfinite (Decimal.toBinary64?_eq_some_iff.1 hx).1
      simp only [Literal.value, hd, hb, hnumeral, hfinite, not_true_eq_false, not_false_eq_true,
        false_and, true_and, false_or, Except.error.injEq, eq_comm]
  · have hd : Decimal.ofNumeral? literal.run = none :=
      Option.eq_none_iff_forall_ne_some.2 fun d hd =>
        hnumeral ((Decimal.ofNumeral?_eq_some_iff h).1 hd).1
    simp only [Literal.value, hd, hnumeral, not_false_eq_true, false_and, true_and, or_false,
      Except.error.injEq, eq_comm]

end Literal

namespace Grammar

variable {text : List Char}

/-! ## One misreading at most -/

theorem HasRun.eq_takeWhile {run : List Char} {position : Nat} (h : HasRun text run position) :
    run = (text.drop position).takeWhile isNumeralChar := by
  obtain ⟨hrun, before, after, rfl, hposition, -, hafter⟩ := h
  obtain rfl : position = before.length := by simpa using hposition
  have hnone : after.takeWhile isNumeralChar = [] := by
    cases after with
    | nil => rfl
    | cons c after => rw [List.takeWhile_cons_of_neg (by simp [hafter c rfl])]
  rw [List.append_assoc, List.drop_left, List.takeWhile_append_of_pos hrun.all, hnone,
    List.append_nil]

/-- Only one run stands at a place. -/
theorem HasRun.unique {run run' : List Char} {position : Nat} (h : HasRun text run position)
    (h' : HasRun text run' position) : run = run' :=
  h.eq_takeWhile.trans h'.eq_takeWhile.symm

/-- **A text is misread in one way at most.** -/
theorem Misreading.unique {failure failure' : EvalError} (h : Misreading text failure)
    (h' : Misreading text failure') : failure = failure' := by
  cases h with
  | noSentence hsentence greatest =>
    cases h' with
    | noSentence _ greatest' => rw [greatest.unique greatest']
    | noNumeral hsentence' => exact absurd hsentence' hsentence
    | tooLarge hsentence' => exact absurd hsentence' hsentence
  | noNumeral hsentence least stands malformed =>
    cases h' with
    | noSentence hsentence' => exact absurd hsentence hsentence'
    | noNumeral _ least' stands' =>
      obtain rfl := least.unique least'
      rw [stands.unique stands']
    | tooLarge _ least' stands' numeral =>
      obtain rfl := least.unique least'
      exact absurd (stands.unique stands' ▸ numeral) malformed
  | tooLarge hsentence least stands numeral large =>
    cases h' with
    | noSentence hsentence' => exact absurd hsentence hsentence'
    | noNumeral _ least' stands' malformed =>
      obtain rfl := least.unique least'
      exact absurd (stands.unique stands' ▸ numeral) malformed
    | tooLarge => rfl

theorem Misreading.not_isSentence_or_nonempty {failure : EvalError} (h : Misreading text failure) :
    ¬ IsSentence text ∨ (valuelessPlaces text).Nonempty := by
  cases h with
  | noSentence hsentence => exact .inl hsentence
  | noNumeral _ least => exact .inr ⟨_, least.1⟩
  | tooLarge _ least => exact .inr ⟨_, least.1⟩

/-! ## Comparing with the parser -/

/-- The leftmost literal without a value stands at the leftmost place of a run that has none. -/
theorem isLeast_valuelessPlaces {e : Expr Literal} {before after : List Literal} {literal : Literal}
    (h : IsExpr 0 text e) (hnumbers : e.numbers = before ++ literal :: after)
    (hbefore : ∀ l ∈ before, HasValue l.run) (hvalue : ¬ HasValue literal.run) :
    IsLeast (valuelessPlaces text) literal.position := by
  have hruns := listsRuns_of_isExpr h
  have hstands := hruns.standsIn literal (by simp [hnumbers])
  refine ⟨⟨literal.run, ⟨hstands.isRun, hstands.exists_split⟩, hvalue⟩, ?_⟩
  rintro place ⟨run, hrun, hplace⟩
  obtain ⟨negative, hmem⟩ := hruns.exists_mem _ hrun
  have hsorted := hruns.sorted
  rw [hnumbers] at hmem hsorted
  rcases List.mem_append.1 hmem with hmem | hmem
  · exact absurd (hbefore _ hmem) hplace
  · rcases List.mem_cons.1 hmem with hmem | hmem
    · rw [← hmem]
    · have hlater := (List.pairwise_cons.1 (List.pairwise_append.1 hsorted).2.1).1 _ hmem
      exact Nat.le_of_lt hlater

/-- **The parser fails with a misreading.** -/
theorem misreading_of_parse_eq_error {failure : EvalError} (h : Expr.parse text = .error failure) :
    Misreading text failure := by
  rcases bind_eq_error_iff.1 h with htext | ⟨e, htext, hvalues⟩
  · obtain ⟨place, hstops, rfl⟩ := Expr.ofText_eq_error_iff.1 htext
    exact .noSentence (Expr.not_isSentence_iff.2 ⟨place, hstops⟩) hstops.isGreatest
  · have hexpr := Expr.ofText_eq_ok_iff.1 htext
    have hstands := standsIn_of_isExpr hexpr
    obtain ⟨before, literal, after, hnumbers, hbefore, hfail⟩ := Expr.mapM_eq_error_iff.1 hvalues
    have hbefore' : ∀ l ∈ before, HasValue l.run := fun l hl =>
      (Literal.exists_value_iff (hstands l (by simp [hnumbers, hl])).isRun).1 (hbefore l hl)
    have hliteral := hstands literal (by simp [hnumbers])
    have hrun : HasRun text literal.run literal.position :=
      ⟨hliteral.isRun, hliteral.exists_split⟩
    rcases (Literal.value_eq_error_iff hliteral.isRun).1 hfail with
      ⟨hmalformed, rfl⟩ | ⟨hnumeral, hlarge, rfl⟩
    · have hleast := isLeast_valuelessPlaces hexpr hnumbers hbefore' fun hv => hmalformed hv.numeral
      exact .noNumeral ⟨e, hexpr⟩ hleast hrun hmalformed
    · have hleast := isLeast_valuelessPlaces hexpr hnumbers hbefore' fun hv => hlarge hv.finite
      exact .tooLarge ⟨e, hexpr⟩ hleast hrun hnumeral hlarge

/-- A text that is read is an expression, and all of its runs have values. -/
theorem hasValue_of_parse_eq_ok {e : Expr Binary64} (h : Expr.parse text = .ok e) :
    IsSentence text ∧ ¬ (valuelessPlaces text).Nonempty := by
  obtain ⟨literals, htext, hvalues⟩ := bind_eq_ok_iff.1 h
  have hexpr := Expr.ofText_eq_ok_iff.1 htext
  refine ⟨⟨literals, hexpr⟩, ?_⟩
  rintro ⟨place, run, hrun, hplace⟩
  obtain ⟨negative, hmem⟩ := (listsRuns_of_isExpr hexpr).exists_mem _ hrun
  obtain ⟨hnumeral, hfinite⟩ := ((mapM_value_eq_ok_iff hexpr e).1 hvalues).1 _ hmem
  rw [Literal.isFinite_denoted] at hfinite
  exact hplace ⟨hnumeral, hfinite⟩

end Grammar

/-- **The errors of the parser are the misreadings of the text**, whatever its characters.  It fails
exactly if the text is no expression or has a run without a value.  If it is no expression, the
error stands at the end of the longest beginning that some expression has, which is where the
furthest failed attempt of the matcher with ordered choice began. -/
theorem parse_eq_error_iff_misreading (text : List Char) :
    (∀ failure, Expr.parse text = .error failure ↔ Misreading text failure) ∧
    ((∃ failure, Expr.parse text = .error failure) ↔
      ¬ IsSentence text ∨ (valuelessPlaces text).Nonempty) ∧
    ∀ place, Matcher.FailsAt text place ↔
      ¬ IsSentence text ∧ IsGreatest (viableLengths text) place := by
  have hfails : (¬ IsSentence text ∨ (valuelessPlaces text).Nonempty) →
      ∃ failure, Expr.parse text = .error failure := by
    intro h
    cases hparse : Expr.parse text with
    | error failure => exact ⟨failure, rfl⟩
    | ok e =>
      obtain ⟨hsentence, hvalues⟩ := hasValue_of_parse_eq_ok hparse
      exact (h.elim (fun hnot => hnot hsentence) hvalues).elim
  refine ⟨fun failure => ⟨misreading_of_parse_eq_error, fun h => ?_⟩, ⟨?_, hfails⟩,
    fun place => Matcher.failsAt_iff_isGreatest⟩
  · obtain ⟨failure', hparse⟩ := hfails h.not_isSentence_or_nonempty
    rw [hparse, h.unique (misreading_of_parse_eq_error hparse)]
  · rintro ⟨failure, hparse⟩
    exact (misreading_of_parse_eq_error hparse).not_isSentence_or_nonempty

end Calculator
