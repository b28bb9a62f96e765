import Calculator.Expr.Grammar
import Calculator.Expr.Numbers

/-!
# What a derivation denotes

The grammar gives a text a tree of literals, whatever the runs in it look like.  This file says what
such a tree stands for, without any way of reading.

* `Literal.denoted` is the number that a literal denotes: the digits of its run, counted with as
  many places as there are digits after the dot, rounded to the nearest binary number, and negated
  if there is a minus sign before the run.  What is too large for a number denotes an infinity.
* `Expr.map` puts these numbers in the places of the literals, and changes nothing else.
* `IsNumeral` says which runs are numerals.  A run of another form denotes nothing, and what
  `Literal.denoted` makes of it is of no interest.
* `Literal.StandsIn` says that a literal is all that stands at its place: its run cannot be made
  longer in the text, to the left or to the right.
-/

set_option autoImplicit false

namespace Calculator

/-! ## Numbers -/

/-- A run of digits and dots is a numeral if it has a digit and no more than one dot. -/
structure IsNumeral (run : List Char) : Prop where
  exists_digit : ∃ c ∈ run, c.isDigit = true
  count_dot_le : run.count '.' ≤ 1

namespace Decimal

/-- The decimal that a run is written for: its digits, with the dot between them left out, and one
place for every digit after the dot. -/
def ofRun (run : List Char) : Decimal where
  coefficient := Nat.ofDigitChars 10 (run.filter Char.isDigit) 0
  exponent := -((run.dropWhile (· != '.')).countP Char.isDigit)

/-- The binary number nearest to a decimal, which is infinite if the decimal is too large. -/
def rounded (d : Decimal) : Binary64 where
  negative := false
  magnitude := min d.magnitude Binary64.infinityMagnitude
  magnitude_lt := Nat.lt_of_le_of_lt (Nat.min_le_right _ _) (by decide)

end Decimal

namespace Literal

/-- The number that a literal denotes, if its run is a numeral. -/
def denoted (literal : Literal) : Binary64 :=
  let value := (Decimal.ofRun literal.run).rounded
  if literal.negative then -value else value

/-- In `text`, which begins at `position`, the run of a literal stands at its place, and neither a
digit nor a dot stands directly before or after it. -/
structure StandsIn (literal : Literal) (position : Nat) (text : List Char) : Prop where
  isRun : Grammar.IsRun literal.run
  exists_split : ∃ before after, text = before ++ literal.run ++ after ∧
    literal.position = position + before.length ∧
    (∀ c ∈ before.getLast?, isNumeralChar c = false) ∧
    ∀ c ∈ after.head?, isNumeralChar c = false

end Literal

/-! ## Trees -/

namespace Expr

variable {α β : Type}

mutual

/-- Replaces the numbers of an expression. -/
def map (f : α → β) : Expr α → Expr β
  | number value => number (f value)
  | negate inner => negate (map f inner)
  | group inner => group (map f inner)
  | chain first rest => chain (map f first) (mapRest f rest)

/-- Replaces the numbers in the rest of a chain. -/
def mapRest (f : α → β) : List (Operator × Expr α) → List (Operator × Expr β)
  | [] => []
  | (operator, operand) :: rest => (operator, map f operand) :: mapRest f rest

end

end Expr
end Calculator
