import Calculator.Operator

/-!
# Expressions

An expression is a number, a negated expression, an expression in parentheses or a *chain*: a first
operand and a list of operators, each with the operand that follows it.  A chain is flat.  It keeps
the operators of both tiers in the order in which they are written, and only evaluation tells the
tiers apart; so a long sum is one list, and the depth of a tree is the depth of its parentheses.

The type of the numbers is a parameter.  Reading a text gives an expression over the literals that
stand in it, `Calculator.Literal`, and their values give one over `Binary64`; `Expr.mapM` takes the
one to the other, from left to right.

Trees are free to have shapes that no text has: a chain as an operand of a chain, a chain without
operators, a negated negation.  All operations are defined on them.

## Recursion

A function on expressions is a pair: one function on trees, and one on the rest of a chain.  The
latter carries what it has built so far as an argument, so that it runs in constant stack along a
chain, however long.  `Expr.induction` is the matching principle of proof.
-/

set_option autoImplicit false

namespace Calculator

/-- Expressions over numbers of type `α`. -/
inductive Expr (α : Type) : Type
  | number (value : α)
  | negate (inner : Expr α)
  | group (inner : Expr α)
  | chain (first : Expr α) (rest : List (Operator × Expr α))

namespace Expr

variable {α β ε : Type}

/-! ## Building -/

/-- The chain of a first operand and the rest; an operand without operators stands for itself. -/
def ofChain (first : Expr α) : List (Operator × Expr α) → Expr α
  | [] => first
  | link :: rest => chain first (link :: rest)

/-- Two operands and the operator between them. -/
def binary (left : Expr α) (operator : Operator) (right : Expr α) : Expr α :=
  ofChain left [(operator, right)]

/-- Puts together a chain that is held open at one operand: `before` are the operands to its left,
nearest first, each with the operator that follows it. -/
def unwind {γ : Type} :
    List (γ × Operator) → γ → List (Operator × γ) → γ × List (Operator × γ)
  | [], operand, rest => (operand, rest)
  | (left, operator) :: before, operand, rest => unwind before left ((operator, operand) :: rest)

/-! ## Asking -/

/-- The value of an expression that is a single number. -/
def asNumber? : Expr α → Option α
  | number value => some value
  | _ => none

/-- Whether an expression is a chain. -/
def isChain : Expr α → Bool
  | chain _ _ => true
  | _ => false

mutual

/-- The number of operators that have yet to be applied. -/
def operationCount : Expr α → Nat
  | number _ => 0
  | negate inner => inner.operationCount
  | group inner => inner.operationCount
  | chain first rest => operationCountRest first.operationCount rest

/-- The operators in the rest of a chain, added to `count`. -/
def operationCountRest (count : Nat) : List (Operator × Expr α) → Nat
  | [] => count
  | (_, operand) :: rest => operationCountRest (count + 1 + operand.operationCount) rest

end

mutual

/-- Whether two expressions have the same shape, the same operators and, according to `same`, the
same numbers. -/
def sameBy (same : α → α → Bool) : Expr α → Expr α → Bool
  | number x, number y => same x y
  | negate x, negate y => sameBy same x y
  | group x, group y => sameBy same x y
  | chain first rest, chain first' rest' => sameBy same first first' && sameRestBy same rest rest'
  | _, _ => false

/-- Whether two rests of chains have the same operators and the same operands. -/
def sameRestBy (same : α → α → Bool) :
    List (Operator × Expr α) → List (Operator × Expr α) → Bool
  | [], [] => true
  | (operator, x) :: rest, (operator', y) :: rest' =>
    decide (operator = operator') && sameBy same x y && sameRestBy same rest rest'
  | _, _ => false

end

/-! ## Replacing the numbers -/

mutual

/-- Replaces the numbers of an expression from left to right; the first failure is the answer. -/
def mapM (f : α → Except ε β) : Expr α → Except ε (Expr β)
  | number value => (f value).map number
  | negate inner => (mapM f inner).map negate
  | group inner => (mapM f inner).map group
  | chain first rest => do
    let first ← mapM f first
    let rest ← mapRestM f [] rest
    return chain first rest

/-- Replaces the numbers in the rest of a chain; `done` are the links before it, nearest first. -/
def mapRestM (f : α → Except ε β) (done : List (Operator × Expr β)) :
    List (Operator × Expr α) → Except ε (List (Operator × Expr β))
  | [] => .ok done.reverse
  | (operator, operand) :: rest => do
    let operand ← mapM f operand
    mapRestM f ((operator, operand) :: done) rest

end

/-! ## Induction -/

mutual

/-- Proof by induction on expressions, where the operands of a chain are a list. -/
theorem induction {motive : Expr α → Prop} (number : ∀ value, motive (number value))
    (negate : ∀ inner, motive inner → motive (negate inner))
    (group : ∀ inner, motive inner → motive (group inner))
    (chain : ∀ first rest, motive first → (∀ link ∈ rest, motive link.2) →
      motive (chain first rest)) :
    ∀ e : Expr α, motive e
  | .number value => number value
  | .negate inner => negate inner (induction number negate group chain inner)
  | .group inner => group inner (induction number negate group chain inner)
  | .chain first rest =>
    chain first rest (induction number negate group chain first)
      (inductionRest number negate group chain rest)

/-- Every operand in the rest of a chain has what all expressions have. -/
theorem inductionRest {motive : Expr α → Prop} (number : ∀ value, motive (number value))
    (negate : ∀ inner, motive inner → motive (negate inner))
    (group : ∀ inner, motive inner → motive (group inner))
    (chain : ∀ first rest, motive first → (∀ link ∈ rest, motive link.2) →
      motive (chain first rest)) :
    ∀ rest : List (Operator × Expr α), ∀ link ∈ rest, motive link.2
  | [], _, h => nomatch h
  | head :: _, _, .head _ => induction number negate group chain head.2
  | _ :: rest, link, .tail _ h => inductionRest number negate group chain rest link h

end

end Expr
end Calculator
