import Calculator.Expr.Passes
import Calculator.Expr.Pushdown
import Calculator.Expr.Reduce
import Calculator.Text.Normal

/-!
# Evaluating a text

The operations of the calculator on texts.  Each brings the text into its normal form, reads it and
goes on with the tree; the first error on the way is the answer.

* `normalize` — the normal form alone.
* `parse` — the expression that is written.
* `evaluate` — its value; `evaluateAll` does so for many texts.
* `trace` — the normal form, and the text of the expression before every pass and after the last.
  The text before the first pass is left out where it is the normal form again, as it is unless a
  literal is written differently from its value (`0.50*2`, `5.`).
-/

set_option autoImplicit false

namespace Calculator

/-- The normal form of a text. -/
def normalize (raw : String) : Except EvalError String :=
  (Normal.validate raw.toList).map String.ofList

/-- The expression that a text is written as. -/
def parse (raw : String) : Except EvalError (Expr Binary64) := do
  let normal ← normalize raw
  Expr.parse normal.toList

/-- The value of a text. -/
def evaluate (raw : String) : Except EvalError Binary64 := do
  let e ← parse raw
  e.reduce

/-- The values of many texts, in the same order. -/
def evaluateAll (raws : List String) : List (Except EvalError Binary64) := raws.map evaluate

/-- The texts from the normal form of a text to the text of its value, one for each pass. -/
def trace (raw : String) : Except EvalError (List String) := do
  let normal ← normalize raw
  let e ← Expr.parse normal.toList
  let lines ← e.trace
  return if lines.head? = some normal then lines else normal :: lines

end Calculator
