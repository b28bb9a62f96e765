import Calculator.Evaluate

/-!
# What the operations report

Every operation on a text has a log, a list of entries in the order in which they arise.  The log
is a function of the text, like the answer, and does not depend on who listens: a listener with a
*threshold* sees the entries of that level and of the more severe ones (`Log.upTo`).

A text that has no normal form is not read, so nothing is reported of it but, by `evaluate`, that it
failed.  The log of a trace has an entry for each pass, also for those before a pass that fails.

Of a normal form that is no expression an explanation is reported.  Its wording is not modelled and
is a parameter, `explain`; the logs that have the explanation at its place are those with `With` in
their names.
-/

set_option autoImplicit false

namespace Calculator

/-- The levels of an entry, the most severe first. -/
inductive Level
  | error
  | warn
  | info
  | debug
  | trace
  deriving DecidableEq

namespace Level

/-- The place of a level in the order of levels. -/
def rank : Level → Nat
  | error => 1
  | warn => 2
  | info => 3
  | debug => 4
  | trace => 5

/-- The name of a level in a log. -/
def name : Level → String
  | error => "ERROR"
  | warn => "WARN"
  | info => "INFO"
  | debug => "DEBUG"
  | trace => "TRACE"

/-- Whether a listener with this threshold sees a level; without a threshold it sees none. -/
def isShown (threshold : Option Level) (level : Level) : Bool :=
  threshold.any fun threshold => level.rank ≤ threshold.rank

theorem isShown_iff {threshold : Option Level} {level : Level} :
    level.isShown threshold = true ↔ ∃ most ∈ threshold, level.rank ≤ most.rank := by
  cases threshold <;> simp [isShown]

end Level

/-- A message and its level. -/
structure Entry where
  level : Level
  message : String
  deriving DecidableEq

/-- Entries in the order in which they arise. -/
abbrev Log := List Entry

namespace Log

/-- The entries that a listener with this threshold sees. -/
def upTo (threshold : Option Level) (log : Log) : Log :=
  log.filter fun entry => entry.level.isShown threshold

/-- What reading a normal form reports. -/
def ofReading (normal : String) : Log :=
  ⟨.debug, s!"Parsing expression: {normal}"⟩ ::
    match Expr.parse normal.toList with
    | .ok e => [⟨.debug, s!"Built tree: {e.listing}"⟩]
    | .error _ => []

/-- What `parse` reports. -/
def ofParse (raw : String) : Log :=
  match normalize raw with
  | .ok normal => ofReading normal
  | .error _ => []

/-- What is reported of an evaluation that fails. -/
def ofFailure (raw : String) : Log :=
  match evaluate raw with
  | .ok _ => []
  | .error failure => [⟨.debug, s!"Evaluation of '{raw}' failed: {failure.message}"⟩]

/-- What `evaluate` reports. -/
def ofEvaluate (raw : String) : Log := ofParse raw ++ ofFailure raw

/-- The report of a pass. -/
def ofPass (old new : Expr Binary64) : Entry :=
  ⟨.trace, s!"Reduced '{old.text}' to '{new.text}'"⟩

/-- The reports of all passes from an expression on. -/
def ofPasses (e : Expr Binary64) : Log :=
  let trees := e.passes.trees
  List.zipWith ofPass (e :: trees) trees

/-- What `trace` reports. -/
def ofTrace (raw : String) : Log :=
  ofParse raw ++
    match parse raw with
    | .ok e => ofPasses e
    | .error _ => []

/-! ## Logs with explanations -/

/-- The explanation that is reported of a normal form that is no expression. -/
def ofRejection (explain : String → String) (normal : String) : Log :=
  match Expr.ofText normal.toList with
  | .error _ => [⟨.debug, s!"Parse error: {explain normal}"⟩]
  | .ok _ => []

/-- The explanation that is reported of a text, if it has a normal form that is no expression. -/
def ofExplanation (explain : String → String) (raw : String) : Log :=
  match normalize raw with
  | .ok normal => ofRejection explain normal
  | .error _ => []

/-- What `parse` reports, with the explanation if there is one. -/
def ofParseWith (explain : String → String) (raw : String) : Log :=
  ofParse raw ++ ofExplanation explain raw

/-- What `evaluate` reports, with the explanation if there is one. -/
def ofEvaluateWith (explain : String → String) (raw : String) : Log :=
  ofParseWith explain raw ++ ofFailure raw

/-- What `trace` reports, with the explanation if there is one. -/
def ofTraceWith (explain : String → String) (raw : String) : Log :=
  ofTrace raw ++ ofExplanation explain raw

section Explained

variable {explain : String → String} {raw normal : String} {failure : EvalError}

/-- Nothing is reported of a text that has no normal form. -/
theorem ofParseWith_of_error (h : normalize raw = .error failure) :
    ofParseWith explain raw = [] := by
  rw [ofParseWith, ofParse, ofExplanation, h]
  rfl

theorem ofParseWith_of_ok (h : normalize raw = .ok normal) :
    ofParseWith explain raw = ofReading normal ++ ofRejection explain normal := by
  rw [ofParseWith, ofParse, ofExplanation, h]

end Explained

/-! ## What a listener hears -/

/-- **A listener sees the entries that are at least as severe as its threshold**, and no others. -/
theorem mem_upTo {threshold : Option Level} {log : Log} {entry : Entry} :
    entry ∈ log.upTo threshold ↔
      entry ∈ log ∧ ∃ most ∈ threshold, entry.level.rank ≤ most.rank := by
  rw [upTo, List.mem_filter, Level.isShown_iff]

theorem upTo_nil (threshold : Option Level) : upTo threshold [] = [] := rfl

theorem upTo_append (threshold : Option Level) (log log' : Log) :
    (log ++ log').upTo threshold = log.upTo threshold ++ log'.upTo threshold :=
  List.filter_append ..

theorem upTo_eq_self {most : Level} {log : Log}
    (h : ∀ entry ∈ log, entry.level.rank ≤ most.rank) : log.upTo (some most) = log :=
  List.filter_eq_self.2 fun entry hmem => Level.isShown_iff.2 ⟨most, rfl, h entry hmem⟩

/-- At the lowest level everything is heard. -/
theorem upTo_trace (log : Log) : log.upTo (some .trace) = log := by
  refine upTo_eq_self fun entry _ => ?_
  cases entry.level <;> decide

/-! ## The levels of reports -/

theorem level_of_mem_ofParse {raw : String} : ∀ entry ∈ ofParse raw, entry.level = .debug := by
  intro entry hmem
  rw [ofParse] at hmem
  split at hmem
  · rw [ofReading] at hmem
    split at hmem
    · simp only [List.mem_cons, List.not_mem_nil, or_false] at hmem
      rcases hmem with rfl | rfl <;> rfl
    · rw [List.mem_singleton.1 hmem]
  · cases hmem

theorem level_of_mem_ofExplanation {explain : String → String} {raw : String} :
    ∀ entry ∈ ofExplanation explain raw, entry.level = .debug := by
  intro entry hmem
  rw [ofExplanation] at hmem
  split at hmem
  · rw [ofRejection] at hmem
    split at hmem
    · rw [List.mem_singleton.1 hmem]
    · cases hmem
  · cases hmem

theorem level_of_mem_ofFailure {raw : String} :
    ∀ entry ∈ ofFailure raw, entry.level = .debug := by
  intro entry hmem
  rw [ofFailure] at hmem
  split at hmem
  · cases hmem
  · rw [List.mem_singleton.1 hmem]

/-- All that an evaluation reports is at level `debug`. -/
theorem level_of_mem_ofEvaluateWith {explain : String → String} {raw : String} :
    ∀ entry ∈ ofEvaluateWith explain raw, entry.level = .debug := by
  intro entry hmem
  rw [ofEvaluateWith, ofParseWith] at hmem
  rcases List.mem_append.1 hmem with hmem | hmem
  · exact (List.mem_append.1 hmem).elim (level_of_mem_ofParse entry)
      (level_of_mem_ofExplanation entry)
  · exact level_of_mem_ofFailure entry hmem

/-! ## The reports of passes -/

theorem ofPasses_number (value : Binary64) : ofPasses (.number value) = [] := by
  rw [ofPasses, Expr.passes_number]
  rfl

theorem ofPasses_of_error {e : Expr Binary64} {failure : EvalError}
    (h : e.advance = .error failure) : ofPasses e = [] := by
  rw [ofPasses, Expr.passes_eq_of_error h]
  rfl

theorem ofPasses_of_moved {e next : Expr Binary64} (h : e.advance = .ok (.moved next)) :
    ofPasses e = ofPass e next :: ofPasses next := by
  rw [ofPasses, Expr.passes_eq_of_moved h, ofPasses]
  rfl

end Log
end Calculator
