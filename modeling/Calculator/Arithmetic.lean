import Calculator.Binary64.Basic
import Calculator.EvalError
import Calculator.Operator

/-!
# Applying an operator

An operator applied to two numbers gives a finite number or an error.  A divisor that is zero, of
either sign, is an error whatever it divides; all other results that are not finite are an
overflow.  So no infinity and no "not a number" ever leaves an application
(`Operator.isFinite_of_apply`).
-/

set_option autoImplicit false

namespace Calculator
namespace Operator

/-- The result of an operator in the machine's arithmetic, whether it is finite or not. -/
def compute : Operator → Binary64 → Binary64 → Binary64
  | add, left, right => left + right
  | subtract, left, right => left - right
  | multiply, left, right => left * right
  | divide, left, right => left / right

/-- Applies an operator to two numbers. -/
def apply (operator : Operator) (left right : Binary64) : Except EvalError Binary64 :=
  if operator = divide ∧ right.IsZero then .error .divisionByZero
  else if (operator.compute left right).IsFinite then .ok (operator.compute left right)
  else .error .overflow

theorem isFinite_of_apply {operator : Operator} {left right value : Binary64}
    (h : operator.apply left right = .ok value) : value.IsFinite := by
  unfold apply at h
  split at h
  · cases h
  split at h
  · cases h; assumption
  · cases h

/-- An operator that fails on two numbers is no fault of the text. -/
theorem isSyntax_of_apply {operator : Operator} {left right : Binary64} {failure : EvalError}
    (h : operator.apply left right = .error failure) : failure.isSyntax = false := by
  unfold apply at h
  split at h
  · cases h; rfl
  split at h
  · cases h
  · cases h; rfl

end Operator
end Calculator
