import Calculator.Arithmetic
import Calculator.Expr.Basic

/-!
# One pass of step-by-step evaluation

`Expr.advance` rewrites an expression by one pass, or finds that it is a number already.  A pass
applies the operator that is next in order: in a chain the operands are finished first, from left to
right, and then the leftmost of the operators of the highest tier present is applied to its two
neighbours.  Parentheses and a minus sign around what has become a single number vanish in the same
pass, however many there are.  A chain without operators takes one pass to become its operand.

`Expr.step` is the same with the finished number left out.
-/

set_option autoImplicit false

namespace Calculator
namespace Expr

/-- What a pass finds: a number, and nothing to do, or the expression after the pass. -/
inductive Progress
  | finished (value : Binary64)
  | moved (next : Expr Binary64)

/-- What a pass finds in parentheses around an expression. -/
def Progress.group : Progress → Progress
  | finished value => moved (number value)
  | moved (number value) => moved (number value)
  | moved next => moved (.group next)

/-- What a pass finds in the negation of an expression. -/
def Progress.negate : Progress → Progress
  | finished value => moved (number (-value))
  | moved (number value) => moved (number (-value))
  | moved next => moved (.negate next)

/-- The expression after the pass, if there was something to do. -/
def Progress.next? : Progress → Option (Expr Binary64)
  | finished _ => none
  | moved next => some next

/-- A link of a chain whose operand is a number. -/
def numberLink (link : Operator × Binary64) : Operator × Expr Binary64 :=
  (link.1, number link.2)

/-- Applies the first operator of a chain of numbers that `chosen` holds of.  The chain is held open
at `left`, with `before` to its left. -/
def applyFirst (chosen : Operator → Bool) (before : List (Binary64 × Operator)) (left : Binary64) :
    List (Operator × Binary64) → Except EvalError (Binary64 × List (Operator × Binary64))
  | [] => .ok (unwind before left [])
  | (operator, right) :: rest =>
    if chosen operator then (operator.apply left right).map fun value => unwind before value rest
    else applyFirst chosen ((left, operator) :: before) right rest

/-- The highest tier of the operators in the rest of a chain. -/
def highestTier (rest : List (Operator × Binary64)) : Nat :=
  rest.foldl (fun tier link => max tier link.1.precedence) 0

/-- Applies the next operator of a chain all of whose operands are numbers. -/
def applyNext (first : Binary64) (rest : List (Operator × Binary64)) :
    Except EvalError (Expr Binary64) :=
  (applyFirst (fun operator => highestTier rest ≤ operator.precedence) [] first rest).map
    fun (first, rest) => ofChain (number first) (rest.map numberLink)

mutual

/-- Rewrites an expression by one pass. -/
def advance : Expr Binary64 → Except EvalError Progress
  | number value => .ok (.finished value)
  | negate inner => (advance inner).map Progress.negate
  | group inner => (advance inner).map Progress.group
  | chain first rest => do
    match ← advance first with
    | .moved first => return .moved (chain first rest)
    | .finished first => (advanceRest first [] rest).map Progress.moved

/-- Rewrites a chain by one pass whose first operand is a number, and whose next operands, nearest
first, are numbers as well. -/
def advanceRest (first : Binary64) (done : List (Operator × Binary64)) :
    List (Operator × Expr Binary64) → Except EvalError (Expr Binary64)
  | [] => applyNext first done.reverse
  | (operator, operand) :: rest => do
    match ← advance operand with
    | .finished value => advanceRest first ((operator, value) :: done) rest
    | .moved operand =>
      return chain (number first)
        ((done.map numberLink).reverseAux ((operator, operand) :: rest))

end

/-- The expression after one pass, or none if it is a number. -/
def step (e : Expr Binary64) : Except EvalError (Option (Expr Binary64)) :=
  (advance e).map Progress.next?

end Expr
end Calculator
