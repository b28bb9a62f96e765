import Calculator.Decimal.Shortest

/-!
# How a number is written

There are two texts for a number, both made of its shortest decimal.

* `Binary64.text` is what users see.  It is positional and never has an exponent, because
  expressions have none, and an integral value has no point: `5`, `100000000000000000000`,
  `0.0000001`, `-0`.
* `Binary64.listing` is for the listing of a tree in a log.  It has at least one place after the
  point (`2.0`), or an exponent when the number is not zero and its magnitude is below that of
  `10 ^ -4` or at least that of `10 ^ 16` (`1e16`, `1.2345e-5`).

What is not a number is written without a sign.
-/

set_option autoImplicit false

namespace Calculator
namespace Decimal

/-- Positional digits, with a point only if the exponent is negative. -/
def positional (d : Decimal) : List Char :=
  let digits := Nat.toDigits 10 d.coefficient
  match d.exponent with
  | .ofNat zeros => digits ++ List.replicate zeros '0'
  | .negSucc k =>
    let places := k + 1
    let padded := List.replicate (places + 1 - digits.length) '0' ++ digits
    padded.take (padded.length - places) ++ '.' :: padded.drop (padded.length - places)

/-- Positional digits with at least one place after the point. -/
def withPlaces (d : Decimal) : List Char :=
  match d.exponent with
  | .ofNat _ => d.positional ++ ['.', '0']
  | .negSucc _ => d.positional

/-- One digit before the point, the others after it, and an exponent. -/
def scientific (d : Decimal) : List Char :=
  let digits := Nat.toDigits 10 d.coefficient
  let places := digits.drop 1
  let point := if places = [] then [] else '.' :: places
  let exponent := d.exponent + places.length
  digits.take 1 ++ point ++ 'e' :: (toString exponent).toList

end Decimal

namespace Binary64

/-- The text of a finite magnitude in a listing. -/
def listingOfMagnitude (magnitude : Nat) : List Char :=
  let d := Decimal.shortest magnitude
  let small := magnitude ≠ 0 ∧ magnitude < (⟨1, -4⟩ : Decimal).magnitude
  let large := (⟨1, 16⟩ : Decimal).magnitude ≤ magnitude
  if small ∨ large then d.scientific else d.withPlaces

/-- A number with its sign, its finite magnitude written by `layout`. -/
def signed (layout : Nat → List Char) (x : Binary64) : String :=
  if x.IsNaN then "NaN"
  else
    let body := if x.IsFinite then layout x.magnitude else ['i', 'n', 'f']
    String.ofList (if x.negative then '-' :: body else body)

/-- The text of a number, without an exponent. -/
def text (x : Binary64) : String :=
  x.signed fun magnitude => (Decimal.shortest magnitude).positional

/-- The text of a number in a listing. -/
def listing (x : Binary64) : String := x.signed listingOfMagnitude

end Binary64
end Calculator
