import Calculator.Console
import Calculator.Reporting
import Calculator.Text.Lines
import Mathlib.Data.List.Forall2

/-!
# What a session shows

A session is a run of the console on its input.  This file says what it has to show, without the way
in which the console goes through the input.

* `IsSetting` says which limit is in force: the number that the setting is written as, and none if
  there is no setting or it is no number.
* `HasEquations` says which equations stand in some lines: up to the first line that is no text,
  every line that is not blank has one, which is what is left without the blanks around it.
* `IsAnswer` says how one equation is answered, and what is reported with the answer.  Neither
  depends on anything but the equation and the limit.
* `IsSession` says what output and logs belong to the equations: for each of them one line of
  output, in their order, and for each refusal one line of the console's own log.  The whole log has
  what evaluating an equation reports besides, before the line about it.
-/

set_option autoImplicit false

namespace Calculator
namespace Console

/-! ## The limit -/

/-- The text is a number of at most 64 bits, perhaps with a plus sign and zeros before it. -/
def IsCount (text : String) (most : Nat) : Prop :=
  most < UInt64.size ∧ ∃ sign zeros, (sign = "" ∨ sign = "+") ∧ (∀ c ∈ zeros.toList, c = '0') ∧
    text = sign ++ zeros ++ toString most

/-- The limit that a setting puts in force. -/
inductive IsSetting : Option String → Option Nat → Prop
  | unset : IsSetting none none
  | count {text : String} {most : Nat} (h : IsCount text most) : IsSetting (some text) (some most)
  | ignored {text : String} (h : ∀ most, ¬ IsCount text most) : IsSetting (some text) none

/-! ## Equations -/

/-- The second text is what is left of the first without the blanks at its two ends. -/
structure IsTrimmed (text trimmed : String) : Prop where
  exists_blanks : ∃ left right, text.toList = left ++ trimmed.toList ++ right ∧
    ∀ c ∈ left ++ right, isBlank c = true
  head : ∀ c ∈ trimmed.toList.head?, isBlank c = false
  last : ∀ c ∈ trimmed.toList.getLast?, isBlank c = false

/-- The equations that stand in some lines. -/
inductive HasEquations : List (List UInt8) → List String → Prop
  | nil : HasEquations [] []
  | unreadable {line : List UInt8} {lines : List (List UInt8)} (h : ∀ text, utf8 text ≠ line) :
      HasEquations (line :: lines) []
  | blank {text : String} {lines : List (List UInt8)} {equations : List String}
      (h : IsTrimmed text "") (hlines : HasEquations lines equations) :
      HasEquations (utf8 text :: lines) equations
  | equation {text equation : String} {lines : List (List UInt8)} {equations : List String}
      (h : IsTrimmed text equation) (hne : equation ≠ "") (hlines : HasEquations lines equations) :
      HasEquations (utf8 text :: lines) (equation :: equations)

/-! ## Answers -/

/-- An equation has no more characters than the limit, if there is one. -/
def IsWithin (limit : Option Nat) (equation : String) : Prop :=
  ∀ most ∈ limit, equation.length ≤ most

/-- An equation is evaluated if it is within the limit.  It is answered with its value if it has one
then, and is refused otherwise.  Each refusal is reported, at level `info` if the numbers are to
blame. -/
structure IsAnswer (limit : Option Nat) (equation : String) (answer : Answer) : Prop where
  value : ∀ value : Binary64, answer.text = s!"The result of {equation} is {value.text}" ↔
    IsWithin limit equation ∧ evaluate equation = .ok value
  refused : answer.text = refusal ↔
    ¬ (IsWithin limit equation ∧ ∃ value, evaluate equation = .ok value)
  evaluated : ∀ text, text ∈ answer.evaluated ↔ text = equation ∧ IsWithin limit equation
  isLine : IsLine answer.text
  reported : answer.report.isSome = true ↔ answer.text = refusal
  isLine_report : ∀ entry ∈ answer.report, IsLine (logLine entry)
  level : ∀ entry ∈ answer.report, entry.level = .info ∨ entry.level = .debug
  level_eq_info_iff : ∀ entry ∈ answer.report, entry.level = .info ↔ IsWithin limit equation ∧
    (evaluate equation = .error .divisionByZero ∨ evaluate equation = .error .overflow)

/-! ## Sessions -/

/-- What is reported to a listener at level `debug` while a text is evaluated. -/
def evaluationLog (explain : String → String) (text : String) : Log :=
  ((reportEvaluate explain (some .debug) text).outcome []).2

/-- The output and the logs that belong to some equations: the console's own, and all of it. -/
def IsSession (explain : String → String) (limit : Option Nat) (equations : List String)
    (output : String) (own whole : Log) : Prop :=
  ∃ answers, List.Forall₂ (IsAnswer limit) equations answers ∧
    output.toList = answers.flatMap (fun answer => answer.text.toList ++ ['\n']) ∧
    own = answers.filterMap Answer.report ∧
    whole = answers.flatMap fun answer =>
      answer.evaluated.toList.flatMap (evaluationLog explain) ++ answer.report.toList

end Console
end Calculator
