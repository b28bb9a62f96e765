import Calculator.Decimal.Layout
import Calculator.Expr.Basic

/-!
# The text of an expression

`Expr.text` writes an expression in the notation it is read in, so that the text of any tree over
finite numbers can be evaluated in its place.  Parentheses are written

* for a group, which is what a group is;
* around an operand of a chain that is a chain itself, which would otherwise run into the other;
* after a minus sign, around all that a sign may not stand before directly: a chain, a number or a
  negation that begins with a sign of its own.

A chain without operators is written as its only operand.

Writing appends to a text, `out`, and runs in constant stack along a chain.  What is written does
not depend on what stands before it (`toList_writeTo`), so the text of a tree is put together from
the texts of its parts: its characters are `Expr.chars` (`toList_text`).
-/

set_option autoImplicit false

namespace Calculator
namespace Expr

/-- Whether a minus sign before this operand needs parentheses around it. -/
def bracketedAfterMinus : Expr Binary64 → Bool
  | number value => value.negative
  | group _ => false
  | _ => true

/-- Writes what `write` does, in parentheses if asked to. -/
def bracketedIf (bracketed : Bool) (write : String → String) (out : String) : String :=
  if bracketed then (write (out.push '(')).push ')' else write out

mutual

/-- Writes an expression at the end of a text. -/
def writeTo (out : String) : Expr Binary64 → String
  | number value => out ++ value.text
  | negate inner =>
    bracketedIf inner.bracketedAfterMinus (fun out => writeTo out inner) (out.push '-')
  | group inner => bracketedIf true (fun out => writeTo out inner) out
  | chain first rest =>
    writeRestTo (bracketedIf first.isChain (fun out => writeTo out first) out) rest

/-- Writes the rest of a chain at the end of a text. -/
def writeRestTo (out : String) : List (Operator × Expr Binary64) → String
  | [] => out
  | (operator, operand) :: rest =>
    writeRestTo
      (bracketedIf operand.isChain (fun out => writeTo out operand) (out.push operator.symbol)) rest

end

/-- The text of an expression. -/
def text (e : Expr Binary64) : String := writeTo "" e

/-! ## The characters of a text -/

/-- The characters `chars`, in parentheses if asked for. -/
def bracketsIf (bracketed : Bool) (chars : List Char) : List Char :=
  if bracketed then '(' :: (chars ++ [')']) else chars

theorem toList_bracketedIf {write : String → String} {chars : List Char}
    (h : ∀ out, (write out).toList = out.toList ++ chars) (bracketed : Bool) (out : String) :
    (bracketedIf bracketed write out).toList = out.toList ++ bracketsIf bracketed chars := by
  cases bracketed <;> simp [bracketedIf, bracketsIf, h]

mutual

/-- The characters of the text of an expression. -/
def chars : Expr Binary64 → List Char
  | number value => value.text.toList
  | negate inner => '-' :: bracketsIf inner.bracketedAfterMinus (chars inner)
  | group inner => '(' :: (chars inner ++ [')'])
  | chain first rest => bracketsIf first.isChain (chars first) ++ charsRest rest

/-- The characters of the text of the rest of a chain. -/
def charsRest : List (Operator × Expr Binary64) → List Char
  | [] => []
  | (operator, operand) :: rest =>
    operator.symbol :: (bracketsIf operand.isChain (chars operand) ++ charsRest rest)

end

theorem toList_writeRestTo {rest : List (Operator × Expr Binary64)}
    (h : ∀ link ∈ rest, ∀ out, (writeTo out link.2).toList = out.toList ++ link.2.chars)
    (out : String) : (writeRestTo out rest).toList = out.toList ++ charsRest rest := by
  induction rest generalizing out with
  | nil => simp [writeRestTo, charsRest]
  | cons link rest ih =>
    obtain ⟨operator, operand⟩ := link
    have hw := toList_bracketedIf (h (operator, operand) (by simp)) operand.isChain
    simp only [writeRestTo, charsRest, ih fun link hl => h link (by simp [hl])]
    rw [hw]
    simp

/-- Writing appends the same characters to every text. -/
theorem toList_writeTo (e : Expr Binary64) :
    ∀ out, (writeTo out e).toList = out.toList ++ e.chars := by
  induction e using Expr.induction with
  | number value => intro out; simp [writeTo, chars]
  | negate inner ih =>
    intro out
    rw [writeTo, toList_bracketedIf ih]
    simp [chars]
  | group inner ih =>
    intro out
    rw [writeTo, toList_bracketedIf ih]
    simp [chars, bracketsIf]
  | chain first rest ihf ihr =>
    intro out
    rw [writeTo, toList_writeRestTo ihr, toList_bracketedIf ihf]
    simp [chars]

@[simp]
theorem toList_text (e : Expr Binary64) : e.text.toList = e.chars := by
  simp [text, toList_writeTo]

/-! ## Listings -/

mutual

/-- Appends the listing of an expression. -/
def listTo (out : String) : Expr Binary64 → String
  | number value => out ++ "Number(" ++ value.listing ++ ")"
  | negate inner => listTo (out ++ "Negate(") inner ++ ")"
  | group inner => listTo (out ++ "Group(") inner ++ ")"
  | chain first rest =>
    let opened := (out ++ "Chain ").push '{' ++ " first: "
    (listRestTo (listTo opened first ++ ", rest: [") "" rest ++ "] ").push '}'

/-- Appends the links of a chain, each after a separator, which is empty before the first one. -/
def listRestTo (out separator : String) : List (Operator × Expr Binary64) → String
  | [] => out
  | (operator, operand) :: rest =>
    listRestTo (listTo (out ++ separator ++ "(" ++ operator.name ++ ", ") operand ++ ")") ", " rest

end

/-- The listing of an expression. -/
def listing (e : Expr Binary64) : String := listTo "" e

end Expr
end Calculator
