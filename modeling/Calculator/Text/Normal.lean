import Calculator.EvalError

/-!
# The normal form of a text

Blanks are the characters with the Unicode property `White_Space`: five ASCII control characters and
the space, NEL, the no-break space, and the spaces and separators of the later blocks.  They may
stand anywhere in an expression, inside a number too, and mean nothing there.

A text is checked and brought into its normal form before it is read.  In the normal form there are
no blanks, and the point is the only decimal separator.  The checks are about characters and
parentheses alone; whether operands and operators are in place is for the reader to find out.

What is wrong is reported in this order:

1. the first character that no expression contains, at its place in the text as it was given;
2. scanning the normal form from the left, the first `)` with nothing to close or the first `(` that
   is inside of `nestingLimit` others;
3. the leftmost `()`;
4. the last of the `(` that are never closed.
-/

set_option autoImplicit false

namespace Calculator

/-! ## Blanks -/

/-- The code points of the property `White_Space`, as ranges with both ends included. -/
def blankRanges : List (Nat × Nat) :=
  [(0x09, 0x0D), (0x20, 0x20), (0x85, 0x85), (0xA0, 0xA0), (0x1680, 0x1680), (0x2000, 0x200A),
    (0x2028, 0x2029), (0x202F, 0x202F), (0x205F, 0x205F), (0x3000, 0x3000)]

/-- Whether a character is white space. -/
def isBlank (c : Char) : Bool :=
  blankRanges.any fun (low, high) => low ≤ c.toNat && c.toNat ≤ high

/-- A list of characters without the blanks at its two ends. -/
def trimBlanks (chars : List Char) : List Char :=
  ((chars.dropWhile isBlank).reverse.dropWhile isBlank).reverse

/-! ## The checks -/

/-- How many parentheses may be open at once. -/
def nestingLimit : Nat := 256

namespace Normal

/-- The characters that a text may contain besides blanks. -/
def isPermitted (c : Char) : Bool :=
  c.isDigit || c ∈ ['.', ',', '(', ')', '+', '-', '*', '/']

/-- The first character of a text that is neither blank nor permitted, and its place. -/
def firstForeign? (raw : List Char) : Option (Char × Nat) :=
  raw.zipIdx.find? fun (c, _) => !(isBlank c || isPermitted c)

/-- The point stands for both decimal separators. -/
def unifySeparator (c : Char) : Char := if c = ',' then '.' else c

/-- A text without its blanks and with one decimal separator. -/
def form (raw : List Char) : List Char :=
  (raw.filter fun c => !isBlank c).map unifySeparator

/-- Scans parentheses from `position` on, where those at the places `opened` are open, the innermost
first; the answer is what is open at the end. -/
def scan (opened : List Nat) (position : Nat) : List Char → Except EvalError (List Nat)
  | [] => .ok opened
  | c :: rest =>
    if c = '(' then
      if nestingLimit ≤ opened.length then .error (.nestingTooDeep position nestingLimit)
      else scan (position :: opened) (position + 1) rest
    else if c = ')' then
      match opened with
      | [] => .error (.unbalancedParentheses position)
      | _ :: outer => scan outer (position + 1) rest
    else scan opened (position + 1) rest

/-- The place of the leftmost `()`, counted from `position`. -/
def emptyGroup? (position : Nat) : List Char → Option Nat
  | '(' :: ')' :: _ => some position
  | _ :: rest => emptyGroup? (position + 1) rest
  | [] => none

/-- Checks the parentheses of a normal form. -/
def checkParentheses (normal : List Char) : Except EvalError Unit := do
  let opened ← scan [] 0 normal
  match emptyGroup? 0 normal, opened with
  | some position, _ => throw (.emptyParenthesisGroup position)
  | none, position :: _ => throw (.unbalancedParentheses position)
  | none, [] => return ()

/-- The normal form of a text that passes all checks. -/
def validate (raw : List Char) : Except EvalError (List Char) :=
  match firstForeign? raw with
  | some (c, position) => .error (.invalidCharacter c position)
  | none => do
    checkParentheses (form raw)
    return form raw

end Normal

end Calculator
