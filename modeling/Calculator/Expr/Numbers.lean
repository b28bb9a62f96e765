import Calculator.Expr.Basic

/-!
# The numbers and operators of an expression

Two views of an expression that forget its shape: the numbers in it and the operators in it, each
from left to right.  The operator at place `i` stands between the numbers at the places `i` and
`i + 1`.  `operationCount` counts the second list (`operationCount_eq_length_operators`).
-/

set_option autoImplicit false

namespace Calculator
namespace Expr

variable {α : Type}

mutual

/-- The numbers of an expression, from left to right. -/
def numbers : Expr α → List α
  | number value => [value]
  | negate inner => inner.numbers
  | group inner => inner.numbers
  | chain first rest => first.numbers ++ numbersRest rest

/-- The numbers in the rest of a chain. -/
def numbersRest : List (Operator × Expr α) → List α
  | [] => []
  | (_, operand) :: rest => operand.numbers ++ numbersRest rest

end

mutual

/-- The operators of an expression, from left to right. -/
def operators : Expr α → List Operator
  | number _ => []
  | negate inner => inner.operators
  | group inner => inner.operators
  | chain first rest => first.operators ++ operatorsRest rest

/-- The operators in the rest of a chain. -/
def operatorsRest : List (Operator × Expr α) → List Operator
  | [] => []
  | (operator, operand) :: rest => operator :: (operand.operators ++ operatorsRest rest)

end

/-! ## Chains -/

theorem numbers_ofChain (first : Expr α) (rest : List (Operator × Expr α)) :
    (ofChain first rest).numbers = first.numbers ++ numbersRest rest := by
  cases rest with
  | nil => rw [ofChain, numbersRest, List.append_nil]
  | cons link rest => rw [ofChain, numbers]

theorem operators_ofChain (first : Expr α) (rest : List (Operator × Expr α)) :
    (ofChain first rest).operators = first.operators ++ operatorsRest rest := by
  cases rest with
  | nil => rw [ofChain, operatorsRest, List.append_nil]
  | cons link rest => rw [ofChain, operators]

theorem numbersRest_append (rest rest' : List (Operator × Expr α)) :
    numbersRest (rest ++ rest') = numbersRest rest ++ numbersRest rest' := by
  induction rest with
  | nil => rfl
  | cons link rest ih => rw [List.cons_append, numbersRest, numbersRest, ih, List.append_assoc]

theorem operatorsRest_append (rest rest' : List (Operator × Expr α)) :
    operatorsRest (rest ++ rest') = operatorsRest rest ++ operatorsRest rest' := by
  induction rest with
  | nil => rfl
  | cons link rest ih =>
    simp only [List.cons_append, operatorsRest, ih, List.append_assoc]

theorem mem_numbersRest_iff {x : α} {rest : List (Operator × Expr α)} :
    x ∈ numbersRest rest ↔ ∃ link ∈ rest, x ∈ link.2.numbers := by
  induction rest with
  | nil => simp [numbersRest]
  | cons link rest ih => simp [numbersRest, ih]

/-! ## Counting -/

theorem operationCountRest_eq {rest : List (Operator × Expr α)}
    (h : ∀ link ∈ rest, link.2.operationCount = link.2.operators.length) (count : Nat) :
    operationCountRest count rest = count + (operatorsRest rest).length := by
  induction rest generalizing count with
  | nil => simp [operationCountRest, operatorsRest]
  | cons link rest ih =>
    have h1 := h link (by simp)
    have h2 := ih fun link hl => h link (by simp [hl])
    simp [operationCountRest, operatorsRest, h1, h2]
    omega

/-- The operators that have yet to be applied are those that are written. -/
theorem operationCount_eq_length_operators (e : Expr α) :
    e.operationCount = e.operators.length := by
  induction e using Expr.induction with
  | number value => simp [operationCount, operators]
  | negate inner ih => simp [operationCount, operators, ih]
  | group inner ih => simp [operationCount, operators, ih]
  | chain first rest ihf ihr =>
    simp [operationCount, operators, ihf, operationCountRest_eq ihr]

end Expr
end Calculator
