/-!
# The four operators

An operator is written as one character and belongs to one of two tiers: `*` and `/` bind more
tightly than `+` and `-`.  Within a tier operators are taken from left to right, so the tier is
all that an expression has to know about them (`Calculator.Expr.Reduce`, `Calculator.Expr.Step`).
What an operator does to two numbers is `Operator.apply`, in `Calculator.Arithmetic`.

`Operator.ofSymbol?` and `Operator.symbol` undo one another (`ofSymbol?_eq_some_iff`).
-/

set_option autoImplicit false

namespace Calculator

/-- The operators that join two operands. -/
inductive Operator
  | add
  | subtract
  | multiply
  | divide
  deriving DecidableEq

namespace Operator

/-- The character an operator is written as. -/
def symbol : Operator → Char
  | add => '+'
  | subtract => '-'
  | multiply => '*'
  | divide => '/'

/-- The name an operator has in a listing of a tree. -/
def name : Operator → String
  | add => "Add"
  | subtract => "Subtract"
  | multiply => "Multiply"
  | divide => "Divide"

/-- The tier of an operator: the higher one is applied first. -/
def precedence : Operator → Nat
  | add => 1
  | subtract => 1
  | multiply => 2
  | divide => 2

/-- The operator written as the character `c`. -/
def ofSymbol? (c : Char) : Option Operator :=
  if c = '+' then some add
  else if c = '-' then some subtract
  else if c = '*' then some multiply
  else if c = '/' then some divide
  else none

theorem ofSymbol?_symbol (operator : Operator) : ofSymbol? operator.symbol = some operator := by
  cases operator <;> rfl

theorem ofSymbol?_eq_some_iff {c : Char} {operator : Operator} :
    ofSymbol? c = some operator ↔ c = operator.symbol := by
  constructor
  · intro h
    unfold ofSymbol? at h
    split at h
    · cases h; assumption
    split at h
    · cases h; assumption
    split at h
    · cases h; assumption
    split at h
    · cases h; assumption
    · cases h
  · rintro rfl
    exact ofSymbol?_symbol operator

/-- A text that was given as an operator and is none. -/
structure Unknown where
  text : String
  deriving DecidableEq

/-- What is said of a text that is no operator. -/
def Unknown.message (unknown : Unknown) : String :=
  s!"Unknown operator: {unknown.text}"

/-- The operator that is written as `text`, which has to be its symbol and nothing else. -/
def ofText (text : String) : Except Unknown Operator :=
  match text.toList with
  | [c] =>
    match ofSymbol? c with
    | some operator => .ok operator
    | none => .error ⟨text⟩
  | _ => .error ⟨text⟩

end Operator

end Calculator
