import Calculator.Decimal.Basic
import Calculator.EvalError

/-!
# Numerals and literals

A numeral is written with digits and at most one dot: digits before the dot, after it or on both
sides, at least one of them.  Leading zeros are allowed, and so are zeros at the end.
`isNumeralChar` is the alphabet.  Not every run of it is a numeral: `.` has no digit, `1.2.3` has
two dots.

A literal is what stands in a text for a number: a run of digits and dots, and the minus sign
directly before it, if there is one.  It belongs to the tree as it was read; whether the run is a
numeral, and which number that is, is asked afterwards.
-/

set_option autoImplicit false

namespace Calculator

/-! ## Numerals -/

/-- The characters that numerals are made of: the ten ASCII digits and the dot. -/
def isNumeralChar (c : Char) : Bool := c.isDigit || c == '.'

/-- The decimal written as `numeral`, if that is one. -/
def Decimal.ofNumeral? (numeral : List Char) : Option Decimal :=
  let whole := numeral.takeWhile (· != '.')
  let places := (numeral.dropWhile (· != '.')).drop 1
  let digits := whole ++ places
  if digits ≠ [] ∧ digits.all Char.isDigit then
    some ⟨Nat.ofDigitChars 10 digits 0, -places.length⟩
  else none

/-! ## Literals -/

/-- A run of digits and dots at a place in a text, with its sign. -/
structure Literal where
  negative : Bool
  run : List Char
  position : Nat
  deriving DecidableEq

/-- The number a literal stands for. -/
def Literal.value (literal : Literal) : Except EvalError Binary64 :=
  match Decimal.ofNumeral? literal.run with
  | none => .error (.malformedOperand (String.ofList literal.run) literal.position)
  | some decimal =>
    match decimal.toBinary64? with
    | none => .error .overflow
    | some value => .ok (if literal.negative then -value else value)

end Calculator
