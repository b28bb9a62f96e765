import Calculator.Expr.Grammar

/-!
# Matching with ordered choice

Another way to read a text by rules, with rules that are patterns and a matcher that tries them.  A
choice commits itself to the first of its patterns that matches, a repetition and an optional
pattern take all they can get, and nothing is taken back because of what comes later.  If a pattern
fails, the matcher goes on elsewhere from the place at which the pattern began.

So where the matcher has been is not where it ends.  It keeps a record of the places at which an
attempt at a rule began and failed, and when all has failed the furthest of these is what it points
at (`FailsAt`).

`Pattern.Run` is what the matcher does on a text: what is left of the text, or that the pattern
fails, and the places of the attempts that failed on the way.  The pattern of an operator and those
of characters are no rules, and are no attempts.
-/

set_option autoImplicit false

namespace Calculator
namespace Matcher

/-- The rules of the notation.  A number is one rule and not its characters. -/
inductive Rule
  | expression
  | chain
  | factor
  | group
  | number
  | operator
  | minus
  | finish

/-- What a rule may be made of. -/
inductive Pattern
  | char (accepts : Char → Bool)
  | finish
  | sequence (first second : Pattern)
  | choice (first second : Pattern)
  | optional (inner : Pattern)
  | many (inner : Pattern)
  | rule (rule : Rule)

/-- The rules: one or more factors with operators between them, and a factor is a number or a group,
with at most one minus sign before it. -/
def Rule.pattern : Rule → Pattern
  | expression => .sequence (.rule chain) (.rule finish)
  | chain => .sequence (.rule factor) (.many (.sequence (.rule operator) (.rule factor)))
  | factor => .sequence (.optional (.rule minus)) (.choice (.rule number) (.rule group))
  | group => .sequence (.char (· == '(')) (.sequence (.rule chain) (.char (· == ')')))
  | number => .sequence (.char isNumeralChar) (.many (.char isNumeralChar))
  | operator => .char fun c => (Operator.ofSymbol? c).isSome
  | minus => .char (· == '-')
  | finish => .finish

/-- What is left of a text when a pattern has matched, and the place where that begins. -/
abbrev Rest := Nat × List Char

/-- What the matcher does with a pattern on a text that begins at `position`: what is left of the
text, or `none` if the pattern fails, and the places at which attempts at rules failed. -/
inductive Run : Pattern → Nat → List Char → Option Rest → List Nat → Prop
  | char {accepts : Char → Bool} {position : Nat} {c : Char} {text : List Char}
      (h : accepts c = true) :
      Run (.char accepts) position (c :: text) (some (position + 1, text)) []
  | noChar {accepts : Char → Bool} {position : Nat} {text : List Char}
      (h : ∀ c ∈ text.head?, accepts c = false) : Run (.char accepts) position text none []
  | finish {position : Nat} : Run .finish position [] (some (position, [])) []
  | noFinish {position : Nat} {c : Char} {text : List Char} :
      Run .finish position (c :: text) none []
  | sequence {first second : Pattern} {position middle : Nat} {text rest : List Char}
      {outcome : Option Rest} {failed failed' : List Nat}
      (hfirst : Run first position text (some (middle, rest)) failed)
      (hsecond : Run second middle rest outcome failed') :
      Run (.sequence first second) position text outcome (failed ++ failed')
  | noSequence {first second : Pattern} {position : Nat} {text : List Char} {failed : List Nat}
      (hfirst : Run first position text none failed) :
      Run (.sequence first second) position text none failed
  | choice {first second : Pattern} {position : Nat} {text : List Char} {rest : Rest}
      {failed : List Nat} (hfirst : Run first position text (some rest) failed) :
      Run (.choice first second) position text (some rest) failed
  | otherChoice {first second : Pattern} {position : Nat} {text : List Char}
      {outcome : Option Rest} {failed failed' : List Nat}
      (hfirst : Run first position text none failed)
      (hsecond : Run second position text outcome failed') :
      Run (.choice first second) position text outcome (failed ++ failed')
  | optional {inner : Pattern} {position : Nat} {text : List Char} {rest : Rest}
      {failed : List Nat} (h : Run inner position text (some rest) failed) :
      Run (.optional inner) position text (some rest) failed
  | noOptional {inner : Pattern} {position : Nat} {text : List Char} {failed : List Nat}
      (h : Run inner position text none failed) :
      Run (.optional inner) position text (some (position, text)) failed
  | many {inner : Pattern} {position middle : Nat} {text rest : List Char}
      {outcome : Option Rest} {failed failed' : List Nat}
      (hinner : Run inner position text (some (middle, rest)) failed)
      (hmany : Run (.many inner) middle rest outcome failed') :
      Run (.many inner) position text outcome (failed ++ failed')
  | noMany {inner : Pattern} {position : Nat} {text : List Char} {failed : List Nat}
      (h : Run inner position text none failed) :
      Run (.many inner) position text (some (position, text)) failed
  | rule {rule : Rule} {position : Nat} {text : List Char} {rest : Rest} {failed : List Nat}
      (h : Run rule.pattern position text (some rest) failed) :
      Run (.rule rule) position text (some rest) failed
  | noRule {rule : Rule} {position : Nat} {text : List Char} {failed : List Nat}
      (h : Run rule.pattern position text none failed) :
      Run (.rule rule) position text none (failed ++ [position])

/-- The furthest of some places. -/
def IsFurthest (places : List Nat) (furthest : Nat) : Prop :=
  furthest ∈ places ∧ ∀ place ∈ places, place ≤ furthest

/-- The matcher fails on a text, and the furthest place at which an attempt failed is `place`. -/
def FailsAt (text : List Char) (place : Nat) : Prop :=
  ∃ failed, Run (.rule .expression) 0 text none failed ∧ IsFurthest failed place

end Matcher
end Calculator
