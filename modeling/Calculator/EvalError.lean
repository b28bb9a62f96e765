/-!
# How an evaluation fails

There is one constructor for each cause, with the facts a message needs.  Positions are counted
in characters.  The position of an `invalidCharacter` is a place in the text as it was given; all
other positions are places in its normal form (`Calculator.Text.Normal`), where blanks are gone.

The wording stands in `EvalError.message` and nowhere else.  `EvalError.isSyntax` tells a text that
is no expression from an expression that has no value.

A program in `Except` that succeeds is taken apart with `bind_eq_ok_iff` and `map_eq_ok_iff`, and
one that fails with `bind_eq_error_iff` and `map_eq_error_iff`.
-/

set_option autoImplicit false

namespace Calculator

/-- The causes for which a text has no value. -/
inductive EvalError
  /-- The first character that no expression contains. -/
  | invalidCharacter (character : Char) (position : Nat)
  /-- A parenthesis without a partner. -/
  | unbalancedParentheses (position : Nat)
  /-- A `(` that is closed at once. -/
  | emptyParenthesisGroup (position : Nat)
  /-- The `(` that is inside of `limit` others. -/
  | nestingTooDeep (position limit : Nat)
  /-- The place where an operand or an operator had to stand, with the digits and dots that stand
  there instead; or a run of digits and dots that is no numeral. -/
  | malformedOperand (operand : String) (position : Nat)
  /-- A division whose divisor is zero. -/
  | divisionByZero
  /-- A literal or a result that is not finite. -/
  | overflow
  deriving DecidableEq

namespace EvalError

/-- The text shown for an error. -/
def message : EvalError → String
  | invalidCharacter character position =>
    s!"invalid character '{character}' at position {position}"
  | unbalancedParentheses position => s!"unbalanced parentheses at position {position}"
  | emptyParenthesisGroup position => s!"empty parenthesis group at position {position}"
  | nestingTooDeep position limit =>
    s!"parentheses nested deeper than {limit} levels at position {position}"
  | malformedOperand operand position =>
    if operand = "" then s!"missing operand at position {position}"
    else s!"malformed operand '{operand}' at position {position}"
  | divisionByZero => "division by zero"
  | overflow => "result is not a finite number"

/-- Whether the text itself is at fault, and not the numbers in it. -/
def isSyntax : EvalError → Bool
  | divisionByZero => false
  | overflow => false
  | _ => true

end EvalError

/-! ## Programs that may fail -/

section Outcome

variable {ε α β : Type} {outcome : Except ε α}

theorem ok_bind (a : α) (next : α → Except ε β) : (Except.ok a >>= next) = next a := rfl

theorem error_bind (failure : ε) (next : α → Except ε β) :
    (Except.error failure >>= next) = .error failure := rfl

theorem bind_eq_ok_iff {next : α → Except ε β} {b : β} :
    outcome >>= next = .ok b ↔ ∃ a, outcome = .ok a ∧ next a = .ok b := by
  cases outcome <;> simp [bind, Except.bind]

theorem map_eq_ok_iff {f : α → β} {b : β} :
    outcome.map f = .ok b ↔ ∃ a, outcome = .ok a ∧ f a = b := by
  cases outcome <;> simp [Except.map]

theorem bind_eq_error_iff {next : α → Except ε β} {failure : ε} :
    outcome >>= next = .error failure ↔
      outcome = .error failure ∨ ∃ a, outcome = .ok a ∧ next a = .error failure := by
  cases outcome <;> simp [bind, Except.bind]

theorem map_eq_error_iff {f : α → β} {failure : ε} :
    outcome.map f = .error failure ↔ outcome = .error failure := by
  cases outcome <;> simp [Except.map]

end Outcome

end Calculator
