import Calculator.Arithmetic
import Calculator.Expr.Basic

/-!
# Fully parenthesised formulas

A formula is a tree in which every operator has exactly two operands, so that nothing is left to
precedence.  Its value is plain recursion: both operands, then the operator (`Formula.eval`).

`Expr.toFormula` says how an expression is to be understood.  Every chain is cut at its `+` and `-`
into runs; each run is nested to the left by its `*` and `/`, and then the runs are nested to the
left.  Parentheses have done their work and vanish.
-/

set_option autoImplicit false

namespace Calculator

/-- Trees of operators with two operands each. -/
inductive Formula
  | number (value : Binary64)
  | negate (inner : Formula)
  | operation (operator : Operator) (left right : Formula)

namespace Formula

/-- The value of a formula. -/
def eval : Formula → Except EvalError Binary64
  | number value => .ok value
  | negate inner => inner.eval.map fun value => -value
  | operation operator left right => do
    let left ← left.eval
    let right ← right.eval
    operator.apply left right

/-- The formulas inside of a formula, itself included. -/
inductive Within : Formula → Formula → Prop
  | self (f : Formula) : Within f f
  | negate {f inner : Formula} (h : Within f inner) : Within f (negate inner)
  | left {f left right : Formula} {operator : Operator} (h : Within f left) :
      Within f (operation operator left right)
  | right {f left right : Formula} {operator : Operator} (h : Within f right) :
      Within f (operation operator left right)

/-- Nests a chain to the left by the operators of the upper tier alone; the operators of the lower
tier are left as they are, between the runs. -/
def nestRuns (first : Formula) : List (Operator × Formula) → Formula × List (Operator × Formula)
  | [] => (first, [])
  | (operator, operand) :: rest =>
    if 1 < operator.precedence then nestRuns (operation operator first operand) rest
    else (first, (operator, (nestRuns operand rest).1) :: (nestRuns operand rest).2)

/-- Nests a chain to the left by all of its operators. -/
def nestLeft (first : Formula) (rest : List (Operator × Formula)) : Formula :=
  rest.foldl (fun left link => operation link.1 left link.2) first

/-- The formula that a chain stands for. -/
def ofChain (first : Formula) (rest : List (Operator × Formula)) : Formula :=
  let (first, runs) := nestRuns first rest
  nestLeft first runs

end Formula

namespace Expr

mutual

/-- The formula that an expression stands for. -/
def toFormula : Expr Binary64 → Formula
  | number value => .number value
  | negate inner => .negate inner.toFormula
  | group inner => inner.toFormula
  | chain first rest => .ofChain first.toFormula (toFormulaRest rest)

/-- The formulas of the operands in the rest of a chain. -/
def toFormulaRest : List (Operator × Expr Binary64) → List (Operator × Formula)
  | [] => []
  | (operator, operand) :: rest => (operator, operand.toFormula) :: toFormulaRest rest

end

end Expr
end Calculator
