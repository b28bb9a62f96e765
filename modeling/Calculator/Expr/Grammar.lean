import Calculator.Expr.Basic
import Calculator.Literal

/-!
# The grammar of expressions

The notation as a relation between texts and trees, apart from any way of reading:

* an expression is one or more operands, with an operator between any two of them;
* an operand is a run of digits and dots or an expression in parentheses, with at most one minus
  sign before it.

`IsExpr position text e` says that `text`, which begins at `position`, is written for `e`.  A
literal keeps its sign and the place of its run, so the tree says where everything stood.
-/

set_option autoImplicit false

namespace Calculator
namespace Grammar

/-- A run of digits and dots, of any number of either. -/
structure IsRun (run : List Char) : Prop where
  ne_nil : run ≠ []
  all : ∀ c ∈ run, isNumeralChar c = true

mutual

/-- A text is an operand. -/
inductive IsOperand : Nat → List Char → Expr Literal → Prop
  | run {position : Nat} {run : List Char} (h : IsRun run) :
      IsOperand position run (.number ⟨false, run, position⟩)
  | negatedRun {position : Nat} {run : List Char} (h : IsRun run) :
      IsOperand position ('-' :: run) (.number ⟨true, run, position + 1⟩)
  | group {position : Nat} {text : List Char} {inner : Expr Literal}
      (h : IsExpr (position + 1) text inner) :
      IsOperand position ('(' :: (text ++ [')'])) (.group inner)
  | negatedGroup {position : Nat} {text : List Char} {inner : Expr Literal}
      (h : IsExpr (position + 2) text inner) :
      IsOperand position ('-' :: '(' :: (text ++ [')'])) (.negate (.group inner))

/-- A text is the rest of an expression after its first operand. -/
inductive IsRest : Nat → List Char → List (Operator × Expr Literal) → Prop
  | nil {position : Nat} : IsRest position [] []
  | cons {position : Nat} {text text' : List Char} {operator : Operator}
      {operand : Expr Literal} {rest : List (Operator × Expr Literal)}
      (h : IsOperand (position + 1) text operand)
      (hrest : IsRest (position + 1 + text.length) text' rest) :
      IsRest position (operator.symbol :: (text ++ text')) ((operator, operand) :: rest)

/-- A text is an expression. -/
inductive IsExpr : Nat → List Char → Expr Literal → Prop
  | intro {position : Nat} {text text' : List Char} {first : Expr Literal}
      {rest : List (Operator × Expr Literal)} (h : IsOperand position text first)
      (hrest : IsRest (position + text.length) text' rest) :
      IsExpr position (text ++ text') (.ofChain first rest)

end

/-- A text is an expression, whatever tree it is written for. -/
def IsSentence (text : List Char) : Prop := ∃ e, IsExpr 0 text e

/-- Some continuation of a text is an expression. -/
def IsViable (text : List Char) : Prop := ∃ rest, IsSentence (text ++ rest)

end Grammar
end Calculator
