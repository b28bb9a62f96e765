import Calculator.Text.Normal
import Mathlib.Order.Bounds.Defs

/-!
# The verdict on a text

What the checks of a text answer, said without the checks.

The parentheses of a text are taken by counting alone.  What is open at a place is the number of `(`
less the number of `)` before it, and the deepest nesting is the most that is open anywhere.

Each of the questions about a verdict is about places of a text: which character stands there, and
how many parentheses of either kind stand before it.  `Verdict` lists the answers in the order in
which they count, with the least place at which something is wrong, or, for parentheses that are
never closed, the greatest.
-/

set_option autoImplicit false

namespace Calculator

/-! ## Counting parentheses -/

namespace Nesting

/-- How many more parentheses are opened than closed. -/
def surplus (text : List Char) : Nat := text.count '(' - text.count ')'

/-- The most parentheses that are open at once. -/
def deepest (text : List Char) : Nat :=
  (List.range (text.length + 1)).foldl (fun depth i => max depth (surplus (text.take i))) 0

/-- No place of a text has more `)` than `(` before it, and at the end there are as many. -/
def IsBalanced (text : List Char) : Prop :=
  text.count '(' = text.count ')' ∧
    ∀ i ≤ text.length, (text.take i).count ')' ≤ (text.take i).count '('

/-- The `(` at a place opens a level: with it that many are open. -/
def Opens (text : List Char) (level i : Nat) : Prop :=
  text[i]? = some '(' ∧ surplus (text.take i) + 1 = level

/-- The first `(` of a text that opens a level stands at place `i`. -/
def OpensFirst (text : List Char) (level i : Nat) : Prop :=
  Opens text level i ∧ ∀ j < i, ¬ Opens text level j

/-- The `(` at a place is never closed: wherever one stops after it, more is opened than closed. -/
def IsUnclosed (text : List Char) (i : Nat) : Prop :=
  text[i]? = some '(' ∧
    ∀ j, i < j → j ≤ text.length →
      ((text.take j).drop i).count ')' < ((text.take j).drop i).count '('

end Nesting

/-! ## Verdicts -/

namespace Normal

open Nesting

/-- A character that no expression contains, and that is no blank either. -/
def IsForeign (c : Char) : Prop := isBlank c = false ∧ isPermitted c = false

instance (c : Char) : Decidable (IsForeign c) :=
  inferInstanceAs (Decidable (isBlank c = false ∧ isPermitted c = false))

/-- The places of foreign characters. -/
def foreignPlaces (raw : List Char) : Set Nat := {i | ∃ c, raw[i]? = some c ∧ IsForeign c}

/-- The `)` at a place has nothing to close: before it there are as many `)` as `(`. -/
def ClosesNothing (text : List Char) (i : Nat) : Prop :=
  text[i]? = some ')' ∧ (text.take i).count ')' = (text.take i).count '('

/-- The `(` at a place is one too many: before it there are `nestingLimit` more `(` than `)`. -/
def OpensTooMuch (text : List Char) (i : Nat) : Prop :=
  text[i]? = some '(' ∧ (text.take i).count '(' = (text.take i).count ')' + nestingLimit

/-- The places of parentheses that may not stand where they do. -/
def refusedPlaces (text : List Char) : Set Nat := {i | ClosesNothing text i ∨ OpensTooMuch text i}

/-- The places at which a `(` is closed at once. -/
def emptyGroupPlaces (text : List Char) : Set Nat :=
  {i | text[i]? = some '(' ∧ text[i + 1]? = some ')'}

/-- The places of parentheses that are never closed. -/
def unclosedPlaces (text : List Char) : Set Nat := {i | IsUnclosed text i}

/-- What is to be said of a text: the normal form, or what is wrong with it. -/
inductive Verdict (raw : List Char) : Except EvalError String → Prop
  | foreign {c : Char} {i : Nat} (least : IsLeast (foreignPlaces raw) i) (hc : raw[i]? = some c) :
      Verdict raw (.error (.invalidCharacter c i))
  | closesNothing {i : Nat} (permitted : foreignPlaces raw = ∅)
      (least : IsLeast (refusedPlaces (form raw)) i) (h : ClosesNothing (form raw) i) :
      Verdict raw (.error (.unbalancedParentheses i))
  | opensTooMuch {i : Nat} (permitted : foreignPlaces raw = ∅)
      (least : IsLeast (refusedPlaces (form raw)) i) (h : OpensTooMuch (form raw) i) :
      Verdict raw (.error (.nestingTooDeep i nestingLimit))
  | emptyGroup {i : Nat} (permitted : foreignPlaces raw = ∅)
      (counted : refusedPlaces (form raw) = ∅)
      (least : IsLeast (emptyGroupPlaces (form raw)) i) :
      Verdict raw (.error (.emptyParenthesisGroup i))
  | unclosed {i : Nat} (permitted : foreignPlaces raw = ∅) (counted : refusedPlaces (form raw) = ∅)
      (filled : emptyGroupPlaces (form raw) = ∅)
      (greatest : IsGreatest (unclosedPlaces (form raw)) i) :
      Verdict raw (.error (.unbalancedParentheses i))
  | accepted (permitted : foreignPlaces raw = ∅) (counted : refusedPlaces (form raw) = ∅)
      (filled : emptyGroupPlaces (form raw) = ∅) (closed : unclosedPlaces (form raw) = ∅) :
      Verdict raw (.ok (String.ofList (form raw)))

end Normal
end Calculator
