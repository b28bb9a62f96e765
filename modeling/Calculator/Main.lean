import Calculator.Console

/-!
# The command line

Reads the arguments, the environment and the standard input, and prints what `Console.run` says of
them, each answer as soon as its line has been read: the loop here and `Console.runLines` take the
same steps (`Console.react`).  `TEXTCALC_MAX_LEN` limits the length of an equation, and `RUST_LOG`
is the level down to which the log is written to standard error, every entry under the name of the
program; without it nothing is, since no entry is at level `error`.
-/

set_option autoImplicit false

namespace Calculator

/-- The level with this name, in lower or upper case. -/
def Level.ofName? (name : String) : Option Level :=
  [.error, .warn, .info, .debug, .trace].find? fun level => level.name = name.toUpper

/-- Why a normal form is no expression, in the words of the error. -/
def explanation (normal : String) : String :=
  match Expr.parse normal.toList with
  | .ok _ => ""
  | .error failure => failure.message

/-- Writes to standard error what a listener with this threshold sees of a log. -/
def showLog (threshold : Option Level) (log : Log) : IO Unit :=
  for entry in log.upTo threshold do
    IO.eprintln (Console.logLine entry)

/-- Reads a line with its line feed, or what is left of the stream. -/
partial def readLine (stream : IO.FS.Stream) (line : ByteArray) : IO ByteArray := do
  let byte ← stream.read 1
  let line := line ++ byte
  if byte.isEmpty || byte.toList = [10] then return line else readLine stream line

/-- Prints an answer, after what is reported with it. -/
def showAnswer (threshold : Option Level) (answer : Console.Answer) : IO Unit := do
  showLog threshold (answer.log explanation)
  IO.println answer.text
  (← IO.getStdout).flush

/-- Answers the lines of a stream as they come, and returns the exit code. -/
partial def answerLines (stream : IO.FS.Stream) (threshold : Option Level) (limit : Option Nat) :
    IO UInt32 := do
  let line ← readLine stream .empty
  if line.isEmpty then return 0
  match Console.react limit line.toList with
  | .stop => return 1
  | .skip => answerLines stream threshold limit
  | .say answer => do
    showAnswer threshold answer
    answerLines stream threshold limit

end Calculator

open Calculator in
/-- Answers the equation in the arguments, or every line of standard input. -/
def main (arguments : List String) : IO UInt32 := do
  let setting ← IO.getEnv Console.limitVariable
  let threshold := (← IO.getEnv "RUST_LOG").bind Level.ofName?
  let limit := setting.bind Console.readLimit?
  showLog threshold (Console.limitWarnings setting)
  if arguments = [] then
    answerLines (← IO.getStdin) threshold limit
  else
    showAnswer threshold (Console.answer limit (Console.joinArguments arguments))
    return 0
