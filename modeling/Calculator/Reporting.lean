import Calculator.Log

/-!
# Reading, evaluating and tracing with a listener

`Log.ofTrace` and `trace` are two functions of the text, one for what is reported of a trace and one
for the answer.  Here both come from one computation: it makes one pass after another, and between
two passes it adds a line to the answer and reports to a listener (`reportPasses`).  What has been
reported stays so, even if a later pass fails and the lines are lost with it.

A listener has a threshold, and entries below it are dropped as they arise.  The wording of the
explanation that is given of a normal form that is no expression is a parameter, `explain`.
Evaluation with a listener is made the same way (`reportEvaluate`); it reports a failure and then
fails with it.

The messages of passes are read back as pairs of texts.  `TellsTrace` says what these pairs have to
do with the answer: they link the text of the tree to the texts of the trees that the passes lead
to, one after the other (`links`), and so do the lines.
-/

set_option autoImplicit false

namespace Calculator

/-! ## Computations that report -/

/-- A computation that may fail and that reports on its way. -/
abbrev Reporting (α : Type) := ExceptT EvalError (StateM Log) α

namespace Reporting

/-- Reports an entry to a listener with this threshold. -/
def report (threshold : Option Level) (entry : Entry) : Reporting Unit :=
  modify fun log => log ++ Log.upTo threshold [entry]

section Outcome

variable {α β : Type} {x : Reporting α} {log log' : Log}

/-- The answer, and all that has been reported when something has been reported before. -/
def outcome (x : Reporting α) (log : Log) : Except EvalError α × Log := x.run.run log

theorem outcome_pure (a : α) : (pure a : Reporting α).outcome log = (.ok a, log) := rfl

theorem outcome_throw (failure : EvalError) :
    (throw failure : Reporting α).outcome log = (.error failure, log) := rfl

theorem outcome_lift (result : Except EvalError α) :
    (liftM result : Reporting α).outcome log = (result, log) := rfl

theorem outcome_bind_of_ok {a : α} (h : x.outcome log = (.ok a, log')) (f : α → Reporting β) :
    (x >>= f).outcome log = (f a).outcome log' := by
  have hrun : x.run.run log = pure (.ok a, log') := h
  rw [outcome, ExceptT.run_bind, StateT.run_bind, hrun]
  rfl

/-- What has been reported before an error stays. -/
theorem outcome_bind_of_error {failure : EvalError} (h : x.outcome log = (.error failure, log'))
    (f : α → Reporting β) : (x >>= f).outcome log = (.error failure, log') := by
  have hrun : x.run.run log = pure (.error failure, log') := h
  rw [outcome, ExceptT.run_bind, StateT.run_bind, hrun]
  rfl

theorem outcome_tryCatch_of_ok {a : α} (h : x.outcome log = (.ok a, log'))
    (handle : EvalError → Reporting α) : (tryCatch x handle).outcome log = (.ok a, log') := by
  have hrun : x.run.run log = pure (.ok a, log') := h
  rw [outcome, ExceptT.run_tryCatch, StateT.run_bind, hrun]
  rfl

/-- What has been reported before an error stays when the error is handled. -/
theorem outcome_tryCatch_of_error {failure : EvalError}
    (h : x.outcome log = (.error failure, log')) (handle : EvalError → Reporting α) :
    (tryCatch x handle).outcome log = (handle failure).outcome log' := by
  have hrun : x.run.run log = pure (.error failure, log') := h
  rw [outcome, ExceptT.run_tryCatch, StateT.run_bind, hrun]
  rfl

theorem outcome_report_bind (threshold : Option Level) (entry : Entry)
    (f : Unit → Reporting α) : (report threshold entry >>= f).outcome log =
      (f ()).outcome (log ++ Log.upTo threshold [entry]) :=
  outcome_bind_of_ok rfl f

end Outcome

end Reporting

open Reporting Calculator.Expr

/-! ## Reading, evaluating and tracing -/

/-- Makes all passes from an expression on, with the lines up to it at hand. -/
def reportPasses (threshold : Option Level) (current : Expr Binary64) (lines : List String) :
    Reporting (List String) :=
  match h : advance current with
  | .error failure => throw failure
  | .ok (.finished _) => return lines
  | .ok (.moved next) => do
    report threshold (Log.ofPass current next)
    have : next.passCount < current.passCount := by
      have := passCount_of_advance current next h; omega
    reportPasses threshold next (lines ++ [next.text])
termination_by current.passCount

/-- Reads a normal form for a listener with this threshold. -/
def reportReading (explain : String → String) (threshold : Option Level) (normal : String) :
    Reporting (Expr Binary64) := do
  report threshold ⟨.debug, s!"Parsing expression: {normal}"⟩
  match ofText normal.toList with
  | .error failure =>
    report threshold ⟨.debug, s!"Parse error: {explain normal}"⟩
    throw failure
  | .ok literals =>
    let e ← literals.mapM Literal.value
    report threshold ⟨.debug, s!"Built tree: {e.listing}"⟩
    return e

/-- Parses a text for a listener with this threshold. -/
def reportParse (explain : String → String) (threshold : Option Level) (raw : String) :
    Reporting (Expr Binary64) := do
  let normal ← normalize raw
  reportReading explain threshold normal

/-- Evaluates a text for a listener with this threshold. -/
def reportEvaluate (explain : String → String) (threshold : Option Level) (raw : String) :
    Reporting Binary64 :=
  tryCatch (do
      let e ← reportParse explain threshold raw
      e.reduce)
    fun failure => do
      report threshold ⟨.debug, s!"Evaluation of '{raw}' failed: {failure.message}"⟩
      throw failure

/-- Traces a text for a listener with this threshold. -/
def reportTrace (explain : String → String) (threshold : Option Level) (raw : String) :
    Reporting (List String) := do
  let normal ← normalize raw
  let e ← reportReading explain threshold normal
  let lines ← reportPasses threshold e [e.text]
  return if lines.head? = some normal then lines else normal :: lines

/-! ## The messages of passes -/

/-- The message of a pass that makes one text of another. -/
def reduced (before after : String) : String := s!"Reduced '{before}' to '{after}'"

/-- The messages of a log that are those of passes, by their level. -/
def Log.passMessages (log : Log) : List String :=
  (log.filter fun entry => entry.level = .trace).map Entry.message

/-- Texts in a row, each with the one before it. -/
def links (first : String) : List String → List (String × String)
  | [] => []
  | next :: rest => (first, next) :: links next rest

/-- Passes that all succeed lead from an expression through the trees to the last one. -/
inductive Expr.PassesThrough :
    Expr Binary64 → List (Expr Binary64) → Expr Binary64 → Prop
  | nil (e : Expr Binary64) : PassesThrough e [] e
  | cons {e next last : Expr Binary64} {trees : List (Expr Binary64)}
      (h : e.step = .ok (some next)) (run : PassesThrough next trees last) :
      PassesThrough e (next :: trees) last

/-- The messages tell the same as the answer.  They are those of the passes that succeeded; if there
is an answer, its lines are the texts that the messages link, after the normal form where that is
another text; and if not, then no pass goes on from the tree that the passes lead to. -/
structure TellsTrace (normal : String) (e : Expr Binary64) (messages : List String)
    (answer : Except EvalError (List String)) (trees : List (Expr Binary64))
    (last : Expr Binary64) : Prop where
  passes : PassesThrough e trees last
  messages_iff : ∀ pairs : List (String × String),
    messages = pairs.map (fun pair => reduced pair.1 pair.2) ↔
      pairs = links e.text (trees.map text)
  finished : ∀ lines, answer = .ok lines → last.step = .ok none ∧
    e.text :: trees.map text = if normal = e.text then lines else lines.tail
  failed : ∀ failure, answer = .error failure → last.step = .error failure

end Calculator
