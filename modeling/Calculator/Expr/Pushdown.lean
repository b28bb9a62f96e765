import Calculator.Expr.Basic
import Calculator.Literal

/-!
# Reading an expression

Texts are read from left to right by a pushdown machine, one character at a time.  Its notation is

* an expression: operands with one of the four operators between any two of them;
* an operand: at most one minus sign, and then a run of digits and dots or an expression in
  parentheses.

A state holds the chain that is being read at the current depth, and a stack of *frames* for the
chains around it, each interrupted by the `(` of an operand.  The machine never has a choice, and in
every state some continuation of the text leads to an expression.  So the place where it stops is
the end of the longest beginning that some expression has, which is where a message has to point.

Sign and run of a literal stay together, so a minus sign before a run never becomes a negation, and
one before a parenthesis always does.

Rules that are tried in order, and a tree that is built from what has matched, come to the same
(`Calculator.Expr.Matcher`, `Calculator.Expr.Building`); that is `Matcher.parses_iff`.
-/

set_option autoImplicit false

namespace Calculator
namespace Expr

/-- A chain that waits for an operand: what stands to the left of it, nearest first, and whether a
minus sign has been read for it. -/
structure Frame where
  before : List (Expr Literal × Operator)
  negated : Bool

/-- What has been read of the current operand. -/
inductive Operand
  /-- Nothing but perhaps a minus sign. -/
  | awaited (negated : Bool)
  /-- Part of a run, its last character first, and the place where the run begins. -/
  | run (negated : Bool) (reversed : List Char) (position : Nat)
  /-- All of it. -/
  | complete (operand : Expr Literal)

/-- A state of the machine. -/
structure Pushdown where
  /-- The chains around the current one, the innermost first. -/
  outer : List Frame
  /-- The operands of the current chain, nearest first, each with the operator after it. -/
  before : List (Expr Literal × Operator)
  operand : Operand

namespace Pushdown

/-- The state before a text. -/
def start : Pushdown := { outer := [], before := [], operand := .awaited false }

/-- The chain of the operands to the left and the last one. -/
def close (before : List (Expr Literal × Operator)) (last : Expr Literal) : Expr Literal :=
  let (first, rest) := unwind before last []
  ofChain first rest

/-- The current operand, if it may end here. -/
def operand? (s : Pushdown) : Option (Expr Literal) :=
  match s.operand with
  | .awaited _ => none
  | .run negative reversed position => some (number ⟨negative, reversed.reverse, position⟩)
  | .complete operand => some operand

/-- The expression that has been read, if the text may end here. -/
def result? (s : Pushdown) : Option (Expr Literal) :=
  match s.outer with
  | [] => s.operand?.map (close s.before)
  | _ :: _ => none

/-- Reads a character after an operand: an operator, or the parenthesis that ends the chain. -/
def afterOperand? (s : Pushdown) (operand : Expr Literal) (c : Char) : Option Pushdown :=
  match Operator.ofSymbol? c with
  | some operator => some { s with before := (operand, operator) :: s.before,
                                   operand := .awaited false }
  | none =>
    if c = ')' then
      match s.outer with
      | [] => none
      | frame :: outer =>
        let inner := group (close s.before operand)
        some { outer, before := frame.before,
               operand := .complete (if frame.negated then negate inner else inner) }
    else none

/-- Reads the character `c`, which stands at `position`; none if no expression goes on like that. -/
def read? (s : Pushdown) (position : Nat) (c : Char) : Option Pushdown :=
  match s.operand with
  | .awaited negated =>
    if isNumeralChar c then some { s with operand := .run negated [c] position }
    else if c = '(' then
      some { outer := ⟨s.before, negated⟩ :: s.outer, before := [], operand := .awaited false }
    else if c = '-' ∧ negated = false then some { s with operand := .awaited true }
    else none
  | .run negated reversed start =>
    if isNumeralChar c then some { s with operand := .run negated (c :: reversed) start }
    else s.afterOperand? (number ⟨negated, reversed.reverse, start⟩) c
  | .complete operand => s.afterOperand? operand c

/-- Reads the rest of a text, which begins at `position`.  Where it cannot go on, the error has the
place and the digits and dots that stand there. -/
def finish (s : Pushdown) (position : Nat) : List Char → Except EvalError (Expr Literal)
  | [] =>
    match s.result? with
    | some e => .ok e
    | none => .error (.malformedOperand "" position)
  | c :: rest =>
    match s.read? position c with
    | some next => next.finish (position + 1) rest
    | none =>
      .error (.malformedOperand (String.ofList ((c :: rest).takeWhile isNumeralChar)) position)

end Pushdown

/-- The expression that a text is written as, over the literals in it. -/
def ofText (text : List Char) : Except EvalError (Expr Literal) :=
  Pushdown.start.finish 0 text

/-- The expression that a text is written as, over the values of its literals. -/
def parse (text : List Char) : Except EvalError (Expr Binary64) := do
  let e ← ofText text
  e.mapM Literal.value

end Expr
end Calculator
