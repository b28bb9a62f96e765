import Calculator.Proofs.Meaning
import Calculator.Proofs.Precedence
import Calculator.Proofs.Verdict
import Calculator.Text.Lines

/-!
# What messages quote

A message about a text quotes a character of it, or a run of digits and dots.  It quotes nothing
blank (`isBlank_of_mem_quoted`), so it stays on one line, whatever the text is
(`isLine_message_of_evaluate`).
-/

set_option autoImplicit false

namespace Calculator

open Calculator.Expr

variable {failure : EvalError}

/-- What the message of an error has from the text. -/
def EvalError.quoted : EvalError → List Char
  | invalidCharacter character _ => [character]
  | malformedOperand operand _ => operand.toList
  | _ => []

/-! ## Messages -/

/-- A message is on one line if what it quotes is. -/
theorem isLine_message (h : '\n' ∉ failure.quoted) : IsLine failure.message := by
  cases failure with
  | invalidCharacter c i =>
    have hc : IsLine (toString c) := isLine_singleton.2 fun hc => h (by rw [hc]; exact .head _)
    show IsLine (_ ++ toString c ++ _ ++ toString i)
    refine .append (.append (.append ?_ hc) ?_) (isLine_nat i) <;> simp [IsLine, toString]
  | unbalancedParentheses i =>
    show IsLine (_ ++ toString i)
    exact .append (by simp [IsLine, toString]) (isLine_nat i)
  | emptyParenthesisGroup i =>
    show IsLine (_ ++ toString i)
    exact .append (by simp [IsLine, toString]) (isLine_nat i)
  | nestingTooDeep i limit =>
    show IsLine (_ ++ toString limit ++ _ ++ toString i)
    refine .append (.append (.append ?_ (isLine_nat limit)) ?_) (isLine_nat i) <;>
      simp [IsLine, toString]
  | malformedOperand operand i =>
    show IsLine (if operand = "" then _ ++ toString i else _ ++ operand ++ _ ++ toString i)
    split
    · exact .append (by simp [IsLine, toString]) (isLine_nat i)
    · refine .append (.append (.append ?_ h) ?_) (isLine_nat i) <;> simp [IsLine, toString]
  | divisionByZero =>
    show IsLine "division by zero"
    simp [IsLine]
  | overflow =>
    show IsLine "result is not a finite number"
    simp [IsLine]

/-! ## What is quoted -/

theorem isBlank_of_isNumeralChar {c : Char} (h : isNumeralChar c = true) : isBlank c = false := by
  refine Normal.isBlank_of_isPermitted ?_
  rw [isNumeralChar, Bool.or_eq_true, beq_iff_eq] at h
  rcases h with h | rfl
  · rw [Normal.isPermitted, h, Bool.true_or]
  · decide

/-- The machine stops before a run of digits and dots, which may be empty. -/
theorem isNumeralChar_of_finish {text : List Char} {s : Pushdown} {position : Nat}
    (h : s.finish position text = .error failure) :
    ∀ c ∈ failure.quoted, isNumeralChar c = true := by
  induction text generalizing s position with
  | nil =>
    rw [Pushdown.finish] at h
    split at h
    · cases h
    · cases h
      intro c hc
      exact absurd hc List.not_mem_nil
  | cons c text ih =>
    rw [Pushdown.finish] at h
    split at h
    · exact ih h
    · cases h
      intro d hd
      rw [EvalError.quoted, String.toList_ofList] at hd
      exact List.all_eq_true.1 List.all_takeWhile d hd

theorem isNumeralChar_of_value {literal : Literal} (hrun : Grammar.IsRun literal.run)
    (h : literal.value = .error failure) : ∀ c ∈ failure.quoted, isNumeralChar c = true := by
  rw [Literal.value] at h
  split at h
  · cases h
    rw [EvalError.quoted, String.toList_ofList]
    exact hrun.all
  · split at h
    · cases h
      intro c hc
      exact absurd hc List.not_mem_nil
    · cases h

theorem isNumeralChar_of_parse {text : List Char} (h : Expr.parse text = .error failure) :
    ∀ c ∈ failure.quoted, isNumeralChar c = true := by
  rcases bind_eq_error_iff.1 h with h | ⟨literals, hl, h⟩
  · exact isNumeralChar_of_finish h
  · obtain ⟨literal, hliteral, hvalue⟩ := exists_of_mapM_eq_error h
    have hstands := Grammar.standsIn_of_isExpr (ofText_eq_ok_iff.1 hl) literal hliteral
    exact isNumeralChar_of_value hstands.isRun hvalue

theorem isBlank_of_normalize {raw : String} (h : normalize raw = .error failure) :
    ∀ c ∈ failure.quoted, isBlank c = false := by
  have hverdict := Normal.verdict_validate raw.toList
  rw [← normalize, h] at hverdict
  cases hverdict with
  | foreign least hc =>
    obtain ⟨d, hd, hforeign⟩ := least.1
    obtain rfl := Option.some.inj (hc.symm.trans hd)
    intro c hmem
    rw [List.mem_singleton.1 hmem]
    exact hforeign.1
  | closesNothing | opensTooMuch | emptyGroup | unclosed =>
    intro c hmem
    exact absurd hmem List.not_mem_nil

/-- **An error quotes nothing blank.** -/
theorem isBlank_of_mem_quoted {raw : String} (h : evaluate raw = .error failure) :
    ∀ c ∈ failure.quoted, isBlank c = false := by
  rcases bind_eq_error_iff.1 h with hp | ⟨e, -, hr⟩
  · rcases bind_eq_error_iff.1 hp with hn | ⟨normal, -, hp⟩
    · exact isBlank_of_normalize hn
    · exact fun c hc => isBlank_of_isNumeralChar (isNumeralChar_of_parse hp c hc)
  · have hsyntax := Formula.isSyntax_of_reduce hr
    cases failure with
    | divisionByZero | overflow =>
      intro c hc
      exact absurd hc List.not_mem_nil
    | invalidCharacter | unbalancedParentheses | emptyParenthesisGroup | nestingTooDeep
    | malformedOperand => cases hsyntax

/-- **The message of a failed evaluation stays on one line**, whatever the text is. -/
theorem isLine_message_of_evaluate {raw : String} (h : evaluate raw = .error failure) :
    IsLine failure.message :=
  isLine_message fun hmem => absurd (isBlank_of_mem_quoted h _ hmem) (by decide)

end Calculator
