import Calculator.Expr.Meaning
import Mathlib.Order.Bounds.Defs

/-!
# What is wrong with a text that cannot be read

The errors of `Expr.parse`, said without any way of reading.  There are two kinds, and the first
goes before the second.

* A text that is no expression has beginnings that some expression has.  The error stands at the end
  of the longest of them, with the digits and dots that follow there.
* In an expression there may be runs that have no value: some are no numerals, and some numerals are
  too large.  The error is that of the leftmost such run.

Which runs there are is a question about the text alone: `HasRun` knows of no derivation.
-/

set_option autoImplicit false

namespace Calculator
namespace Grammar

/-- How long the beginnings of a text are that some expression has. -/
def viableLengths (text : List Char) : Set Nat :=
  {n | n ≤ text.length ∧ IsViable (text.take n)}

/-- A run stands at a place in a text, and it is all of the digits and dots there. -/
def HasRun (text run : List Char) (position : Nat) : Prop :=
  Literal.StandsIn ⟨false, run, position⟩ 0 text

/-- A run is a numeral for a finite number. -/
structure HasValue (run : List Char) : Prop where
  numeral : IsNumeral run
  finite : (Decimal.ofRun run).rounded.IsFinite

/-- The places of runs that have no value. -/
def valuelessPlaces (text : List Char) : Set Nat :=
  {position | ∃ run, HasRun text run position ∧ ¬ HasValue run}

/-- What is to be said of a text that cannot be read. -/
inductive Misreading (text : List Char) : EvalError → Prop
  | noSentence {position : Nat} (h : ¬ IsSentence text)
      (greatest : IsGreatest (viableLengths text) position) :
      Misreading text
        (.malformedOperand (String.ofList ((text.drop position).takeWhile isNumeralChar)) position)
  | noNumeral {run : List Char} {position : Nat} (h : IsSentence text)
      (least : IsLeast (valuelessPlaces text) position) (stands : HasRun text run position)
      (malformed : ¬ IsNumeral run) :
      Misreading text (.malformedOperand (String.ofList run) position)
  | tooLarge {run : List Char} {position : Nat} (h : IsSentence text)
      (least : IsLeast (valuelessPlaces text) position) (stands : HasRun text run position)
      (numeral : IsNumeral run) (large : ¬ (Decimal.ofRun run).rounded.IsFinite) :
      Misreading text .overflow

end Grammar
end Calculator
