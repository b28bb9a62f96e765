import Calculator.Arithmetic
import Calculator.Expr.Basic

/-!
# The value of an expression

`Expr.reduce` evaluates an expression in one go.  Along a chain it keeps a running *term*, the
product that is being multiplied up, and the *sum* of the finished terms before it with the operator
that will join the term to it.  An operator of the upper tier extends the term; one of the lower
tier first completes the sum.  So `*` and `/` are applied before `+` and `-`, and each tier from
left to right.

Operands are evaluated from left to right, each before the operator on its left is applied, and the
first error is the answer.
-/

set_option autoImplicit false

namespace Calculator
namespace Expr

/-- The state of an evaluation along a chain. -/
structure Running where
  /-- The finished terms, and the operator that joins the current one to them. -/
  sum : Option (Binary64 × Operator)
  /-- The current term. -/
  term : Binary64

namespace Running

/-- The sum with the current term joined to it. -/
def total (running : Running) : Except EvalError Binary64 :=
  match running.sum with
  | none => .ok running.term
  | some (sum, operator) => operator.apply sum running.term

/-- Takes the next operator and the value of its right operand. -/
def push (running : Running) (operator : Operator) (value : Binary64) : Except EvalError Running :=
  if 1 < operator.precedence then
    (operator.apply running.term value).map fun term => { running with term }
  else
    running.total.map fun sum => { sum := some (sum, operator), term := value }

end Running

mutual

/-- The value of an expression. -/
def reduce : Expr Binary64 → Except EvalError Binary64
  | number value => .ok value
  | negate inner => (reduce inner).map fun value => -value
  | group inner => reduce inner
  | chain first rest => do
    let term ← reduce first
    reduceRest { sum := none, term } rest

/-- The value of a chain whose beginning has been taken into `running`. -/
def reduceRest (running : Running) : List (Operator × Expr Binary64) → Except EvalError Binary64
  | [] => running.total
  | (operator, operand) :: rest => do
    let value ← reduce operand
    let running ← running.push operator value
    reduceRest running rest

end

end Expr
end Calculator
