import Calculator.Log

/-!
# The console

The console answers the equation in its arguments, or else each line of its input, and keeps a log.
This file tells what it answers as a function of the arguments, the input and the setting of the
length limit; `Calculator.Main` does the reading and printing.

* A line is a run of bytes without a line feed.  Blanks around it are ignored, and an empty line
  gets no answer.  A line that is not UTF-8 ends the run.
* An answer is one line: the value, or one and the same sentence whatever went wrong.  What went
  wrong is in the log: a numeric failure at level `info`, and a mistake in the text, or a text over
  the limit, at level `debug`.
* There is one log for the whole program.  What the console writes to it itself, a warning and an
  entry for each refusal (`Transcript.log`), stands there among what evaluating the equations
  reports (`Transcript.fullLog`).
-/

set_option autoImplicit false

namespace Calculator
namespace Console

/-! ## The length limit -/

/-- The number that a limit is written as: ASCII digits with at most one plus sign before them, and
a value of at most 64 bits. -/
def readLimit? (setting : String) : Option Nat :=
  let digits :=
    match setting.toList with
    | '+' :: digits => digits
    | digits => digits
  let value := Nat.ofDigitChars 10 digits 0
  if digits ≠ [] ∧ digits.all Char.isDigit ∧ value < UInt64.size then some value else none

/-- The variable of the environment that sets the limit. -/
def limitVariable : String := "TEXTCALC_MAX_LEN"

/-- What is reported of a limit that cannot be used. -/
def limitWarnings (setting : Option String) : Log :=
  match setting with
  | none => []
  | some value =>
    match readLimit? value with
    | some _ => []
    | none => [⟨.warn, s!"Ignoring {limitVariable}={value}: not a character count"⟩]

/-! ## Answers -/

/-- A line of output, and what is reported with it. -/
structure Answer where
  text : String
  /-- The text that is evaluated for it; none is if the equation is over the limit. -/
  evaluated : Option String
  /-- What the console itself reports. -/
  report : Option Entry
  deriving DecidableEq

/-- All that is reported with an answer, by the evaluation and then by the console. -/
def Answer.log (explain : String → String) (answer : Answer) : Log :=
  answer.evaluated.toList.flatMap (Log.ofEvaluateWith explain) ++ answer.report.toList

/-- The sentence shown whenever there is no value. -/
def refusal : String := "Please make sure your equation is correct"

/-- What is reported of an equation that has no value. -/
def failureReport (equation : String) (failure : EvalError) : Entry :=
  if failure.isSyntax then
    ⟨.debug, s!"'{equation}' is not a valid equation: {failure.message}"⟩
  else
    ⟨.info, s!"'{equation}' has no finite result: {failure.message}"⟩

/-- The answer to an equation of a permitted length. -/
def solve (equation : String) : Answer :=
  match evaluate equation with
  | .ok value => ⟨s!"The result of {equation} is {value.text}", some equation, none⟩
  | .error failure => ⟨refusal, some equation, some (failureReport equation failure)⟩

/-- The answer to an equation, which is not looked at if it has more characters than the limit. -/
def answer (limit : Option Nat) (equation : String) : Answer :=
  match limit with
  | none => solve equation
  | some limit =>
    if limit < equation.length then
      ⟨refusal, none, some ⟨.debug,
        s!"Rejected equation of {equation.length} characters (limit {limit})"⟩⟩
    else solve equation

/-! ## Lines -/

/-- What a line of input is. -/
inductive Line
  | unreadable
  | blank
  | equation (text : String)
  deriving DecidableEq

/-- The line that some bytes stand for. -/
def Line.ofBytes (bytes : List UInt8) : Line :=
  match String.fromUTF8? ⟨bytes.toArray⟩ with
  | none => unreadable
  | some text =>
    let trimmed := trimBlanks text.toList
    if trimmed = [] then blank else equation (String.ofList trimmed)

/-- Puts a byte before the first of some lines; a line feed begins a new one. -/
def prependByte (byte : UInt8) (lines : List (List UInt8)) : List (List UInt8) :=
  if byte = 10 then [] :: lines
  else
    match lines with
    | [] => [[byte]]
    | line :: rest => (byte :: line) :: rest

/-- The lines that some input consists of, without their line feeds. -/
def splitLines (input : List UInt8) : List (List UInt8) := input.foldr prependByte [[]]

/-- What the console does about a line. -/
inductive Reaction
  | stop
  | skip
  | say (answer : Answer)

/-- What the console does about a line with these bytes. -/
def react (limit : Option Nat) (bytes : List UInt8) : Reaction :=
  match Line.ofBytes bytes with
  | .unreadable => .stop
  | .blank => .skip
  | .equation text => .say (answer limit text)

/-! ## A run -/

/-- The equation that is given as several arguments. -/
def joinArguments (arguments : List String) : String := " ".intercalate arguments

/-- All that a run of the console shows. -/
structure Transcript where
  /-- What is reported before the first answer. -/
  warnings : Log
  answers : List Answer
  /-- Whether all of the input could be read. -/
  readable : Bool

namespace Transcript

/-- What is printed. -/
def output (transcript : Transcript) : String :=
  transcript.answers.foldl (fun out answer => (out ++ answer.text).push '\n') ""

/-- What the console itself reports. -/
def log (transcript : Transcript) : Log :=
  transcript.warnings ++ transcript.answers.filterMap Answer.report

/-- All that is reported, also by the evaluations. -/
def fullLog (explain : String → String) (transcript : Transcript) : Log :=
  transcript.warnings ++ transcript.answers.flatMap (Answer.log explain)

/-- The exit code: 0 unless a line could not be read. -/
def exitCode (transcript : Transcript) : Nat := if transcript.readable then 0 else 1

/-- A transcript with one answer more, before the others. -/
def prepend (answer : Answer) (transcript : Transcript) : Transcript :=
  { transcript with answers := answer :: transcript.answers }

end Transcript

/-- What the console shows of some lines, up to the first one that stops it. -/
def runLines (warnings : Log) (limit : Option Nat) : List (List UInt8) → Transcript
  | [] => { warnings, answers := [], readable := true }
  | line :: lines =>
    match react limit line with
    | .stop => { warnings, answers := [], readable := false }
    | .skip => runLines warnings limit lines
    | .say answer => (runLines warnings limit lines).prepend answer

/-- The run of the console with the limit set to `setting`. -/
def run (setting : Option String) (arguments : List String) (input : List UInt8) : Transcript :=
  let limit := setting.bind readLimit?
  let warnings := limitWarnings setting
  if arguments = [] then runLines warnings limit (splitLines input)
  else
    { warnings, answers := [answer limit (joinArguments arguments)], readable := true }

/-- How an entry is written to the log of the console. -/
def logLine (entry : Entry) : String :=
  let level := String.ofList (entry.level.name.toList.rightpad 5 ' ')
  s!" {level} textcalc > {entry.message}"

end Console
end Calculator
