import Calculator.Expr.Matcher

/-!
# Building a tree from a match

What the matcher finds is not a tree of an expression yet.  It is a tree of *pairs*, one for each
rule that has matched, with the text of the rule and the pairs of the rules inside it; a character
or a choice that has matched leaves no pair.  `Matches` says which pairs a match has.  A pattern
that was tried in vain leaves none, so the attempts of `Run` that failed are only premises here.

The tree of an expression is built from the pairs.  The builder trusts the rules as far as it has
to: it takes the first pair of a factor for a sign if it is one, and what it finds in the place of a
pair that should be there it reports (`missingOperand`, `unexpected`).  The numbers are read on the
way, from left to right, and a sign in front of a number becomes part of it.  `Parses` is the whole
of it, from a text to a tree or an error.
-/

set_option autoImplicit false

namespace Calculator
namespace Matcher

/-! ## Pairs -/

/-- A rule that has matched: the text that it has matched and where that begins, and the pairs of
the rules inside it. -/
structure Pair where
  rule : Rule
  position : Nat
  text : List Char
  inner : List Pair

/-- The place where the text of a pair ends. -/
def Pair.stop (pair : Pair) : Nat := pair.position + pair.text.length

/-- A pattern matches the beginning of a text, and this is left of it and these are the pairs. -/
inductive Matches : Pattern → Nat → List Char → Rest → List Pair → Prop
  | char {accepts : Char → Bool} {position : Nat} {c : Char} {text : List Char}
      (h : accepts c = true) : Matches (.char accepts) position (c :: text) (position + 1, text) []
  | finish {position : Nat} : Matches .finish position [] (position, []) []
  | sequence {first second : Pattern} {position middle : Nat} {text text' : List Char} {rest : Rest}
      {pairs pairs' : List Pair} (hfirst : Matches first position text (middle, text') pairs)
      (hsecond : Matches second middle text' rest pairs') :
      Matches (.sequence first second) position text rest (pairs ++ pairs')
  | choice {first second : Pattern} {position : Nat} {text : List Char} {rest : Rest}
      {pairs : List Pair} (hfirst : Matches first position text rest pairs) :
      Matches (.choice first second) position text rest pairs
  | otherChoice {first second : Pattern} {position : Nat} {text : List Char} {rest : Rest}
      {failed : List Nat} {pairs : List Pair} (hfirst : Run first position text none failed)
      (hsecond : Matches second position text rest pairs) :
      Matches (.choice first second) position text rest pairs
  | optional {inner : Pattern} {position : Nat} {text : List Char} {rest : Rest}
      {pairs : List Pair} (h : Matches inner position text rest pairs) :
      Matches (.optional inner) position text rest pairs
  | noOptional {inner : Pattern} {position : Nat} {text : List Char} {failed : List Nat}
      (h : Run inner position text none failed) :
      Matches (.optional inner) position text (position, text) []
  | many {inner : Pattern} {position middle : Nat} {text text' : List Char} {rest : Rest}
      {pairs pairs' : List Pair} (hinner : Matches inner position text (middle, text') pairs)
      (hmany : Matches (.many inner) middle text' rest pairs') :
      Matches (.many inner) position text rest (pairs ++ pairs')
  | noMany {inner : Pattern} {position : Nat} {text : List Char} {failed : List Nat}
      (h : Run inner position text none failed) :
      Matches (.many inner) position text (position, text) []
  | rule {rule : Rule} {position middle : Nat} {text read rest : List Char} {pairs : List Pair}
      (split : text = read ++ rest)
      (h : Matches rule.pattern position text (middle, rest) pairs) :
      Matches (.rule rule) position text (middle, rest) [⟨rule, position, read, pairs⟩]

/-! ## The builder -/

/-- Where an operand should be there is none. -/
def missingOperand (position : Nat) : EvalError := .malformedOperand "" position

/-- A pair is not what should be there. -/
def unexpected (pair : Pair) : EvalError :=
  .malformedOperand (String.ofList pair.text) pair.position

/-- The operator that a pair is written as. -/
def buildOperator (pair : Pair) : Except EvalError Operator :=
  match Operator.ofText (String.ofList pair.text) with
  | .ok operator => .ok operator
  | .error _ => .error (unexpected pair)

/-- The number that a pair is written as. -/
def buildNumber (pair : Pair) : Except EvalError Binary64 :=
  match Decimal.ofNumeral? pair.text with
  | none => .error (unexpected pair)
  | some decimal =>
    match decimal.toBinary64? with
    | none => .error .overflow
    | some value => .ok value

mutual

/-- The expression that a chain is written for. -/
def buildChain : Pair → Except EvalError (Expr Binary64)
  | ⟨_, position, _, []⟩ => .error (missingOperand position)
  | ⟨_, _, _, first :: rest⟩ => do
    let first ← buildFactor first
    let rest ← buildLinks [] rest
    return .ofChain first rest

/-- The operators and operands after the first operand; `done` are the links before them, nearest
first. -/
def buildLinks (done : List (Operator × Expr Binary64)) :
    List Pair → Except EvalError (List (Operator × Expr Binary64))
  | [] => .ok done.reverse
  | [operator] => do
    let _ ← buildOperator operator
    throw (missingOperand operator.stop)
  | operator :: operand :: rest => do
    let operator ← buildOperator operator
    let operand ← buildFactor operand
    buildLinks ((operator, operand) :: done) rest

/-- The operand that a factor is written for.  A sign before a number belongs to the number. -/
def buildFactor : Pair → Except EvalError (Expr Binary64)
  | ⟨_, position, _, []⟩ => .error (missingOperand position)
  | ⟨_, _, _, first :: rest⟩ =>
    match first.rule, rest with
    | .minus, [] => .error (missingOperand first.stop)
    | .minus, primary :: _ =>
      match primary.rule with
      | .number => (buildNumber primary).map fun value => .number (-value)
      | _ => (buildPrimary primary).map .negate
    | _, _ => buildPrimary first

/-- The operand that a number or a group is written for. -/
def buildPrimary : Pair → Except EvalError (Expr Binary64)
  | ⟨.number, position, text, inner⟩ =>
    (buildNumber ⟨.number, position, text, inner⟩).map .number
  | ⟨.group, position, _, []⟩ => .error (missingOperand (position + 1))
  | ⟨.group, _, _, chain :: _⟩ => (buildChain chain).map .group
  | pair => .error (unexpected pair)

end

/-- The expression that the pairs of a whole text are written for. -/
def build : List Pair → Except EvalError (Expr Binary64)
  | [] => .error (missingOperand 0)
  | ⟨_, _, _, []⟩ :: _ => .error (missingOperand 0)
  | ⟨_, _, _, chain :: _⟩ :: _ => buildChain chain

/-- What comes of a text: the tree that is built if it matches, and if not an error that points at
the furthest attempt and has the digits and dots that stand there. -/
inductive Parses (text : List Char) : Except EvalError (Expr Binary64) → Prop
  | built {rest : Rest} {pairs : List Pair} (h : Matches (.rule .expression) 0 text rest pairs) :
      Parses text (build pairs)
  | rejected {place : Nat} (h : FailsAt text place) :
      Parses text (.error
        (.malformedOperand (String.ofList ((text.drop place).takeWhile isNumeralChar)) place))

end Matcher
end Calculator
