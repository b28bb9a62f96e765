import Calculator.Proofs.Failure
import Calculator.Proofs.PassNumber
import Calculator.Reporting

/-!
# A trace and its log

The log of a trace tells the same as the trace (`log_tells_trace`).  Both are made by one loop, so
the proof is about the loop.  It carries the tree, the lines and the log together: whatever has been
reported and written before, the rest of the loop adds the reports of the passes from the tree on,
and their texts (`outcome_reportPasses`).  Where a pass fails the lines are lost and the reports are
not, which is why the log knows more of such a run than the answer.

A text is evaluated with a listener in the same way (`outcome_reportEvaluate`).

The messages are read without ambiguity, since no text of a tree has an apostrophe
(`reduced_inj`).
-/

set_option autoImplicit false

namespace Calculator

open Calculator.Expr Reporting

/-! ## Logs without passes -/

namespace Log

theorem passMessages_append (log log' : Log) :
    (log ++ log').passMessages = log.passMessages ++ log'.passMessages := by
  rw [passMessages, List.filter_append, List.map_append]
  rfl

/-- Only passes are reported at the lowest level. -/
theorem passMessages_eq_nil {log : Log} (h : ∀ entry ∈ log, entry.level = .debug) :
    log.passMessages = [] := by
  have hnone : (log.filter fun entry => entry.level = .trace) = [] :=
    List.filter_eq_nil_iff.2 fun entry hmem => by rw [h entry hmem]; decide
  rw [passMessages, hnone]
  rfl

theorem passMessages_ofParse (raw : String) : (ofParse raw).passMessages = [] :=
  passMessages_eq_nil level_of_mem_ofParse

theorem passMessages_ofExplanation (explain : String → String) (raw : String) :
    (ofExplanation explain raw).passMessages = [] :=
  passMessages_eq_nil level_of_mem_ofExplanation

end Log

/-! ## The loop -/

section Loop

variable {threshold : Option Level} {e next : Expr Binary64} {failure : EvalError}
  {lines : List String}

theorem reportPasses_number (value : Binary64) :
    reportPasses threshold (number value) lines = pure lines := by
  rw [reportPasses]
  split
  · rename_i h; simp [advance] at h
  · rfl
  · rename_i h; simp [advance] at h

theorem reportPasses_of_error (h : advance e = .error failure) :
    reportPasses threshold e lines = throw failure := by
  rw [reportPasses]
  split <;> simp_all

theorem reportPasses_of_moved (h : advance e = .ok (.moved next)) :
    reportPasses threshold e lines = (do
      report threshold (Log.ofPass e next)
      reportPasses threshold next (lines ++ [next.text])) := by
  rw [reportPasses]
  split <;> simp_all

/-- The lines of a run that ends well, after some lines. -/
def Expr.Passes.answer (lines : List String) (run : Passes) : Except EvalError (List String) :=
  match run.failure with
  | none => .ok (lines ++ run.trees.map text)
  | some failure => .error failure

theorem Expr.trace_eq_answer (e : Expr Binary64) : e.trace = e.passes.answer [e.text] := by
  rw [Expr.trace, Passes.answer]
  cases e.passes.failure <;> rfl

theorem answer_of_moved (h : advance e = .ok (.moved next)) :
    e.passes.answer lines = next.passes.answer (lines ++ [next.text]) := by
  rw [passes_eq_of_moved h, Passes.answer, Passes.answer]
  cases next.passes.failure with
  | none => simp
  | some failure => rfl

/-- **The invariant of the loop.**  Whatever lines and reports there are already, the rest of the
run adds its own to both; the lines are an answer only if no pass fails, and the reports stay. -/
theorem outcome_reportPasses (threshold : Option Level) (e : Expr Binary64) (lines : List String)
    (log : Log) : (reportPasses threshold e lines).outcome log =
      (e.passes.answer lines, log ++ (Log.ofPasses e).upTo threshold) := by
  induction e using passInduction generalizing lines log with
  | number value =>
    rw [reportPasses_number, outcome_pure, Log.ofPasses_number, Log.upTo_nil, List.append_nil,
      passes_number, Passes.answer, List.map_nil, List.append_nil]
  | failed e failure h =>
    rw [reportPasses_of_error h, outcome_throw, Log.ofPasses_of_error h, Log.upTo_nil,
      List.append_nil, passes_eq_of_error h, Passes.answer]
  | moved e next h ih =>
    have hlog : Log.ofPasses e = [Log.ofPass e next] ++ Log.ofPasses next :=
      Log.ofPasses_of_moved h
    rw [reportPasses_of_moved h, outcome_report_bind, ih, answer_of_moved h, hlog,
      Log.upTo_append, List.append_assoc]

end Loop

/-! ## Texts -/

section Texts

variable {raw normal : String} {e : Expr Binary64} {failure : EvalError}

/-- Reading with a listener is reading, and reporting what `Log` says. -/
theorem outcome_reportReading (explain : String → String) (threshold : Option Level)
    (normal : String) (log : Log) :
    (reportReading explain threshold normal).outcome log =
      (Expr.parse normal.toList,
        log ++ (Log.ofReading normal ++ Log.ofRejection explain normal).upTo threshold) := by
  rw [reportReading, outcome_report_bind, Log.ofReading, Log.ofRejection, Expr.parse]
  cases ofText normal.toList with
  | error failure =>
    simp only [outcome_report_bind, outcome_throw, error_bind, List.append_assoc,
      ← Log.upTo_append, List.cons_append, List.nil_append]
  | ok literals =>
    simp only [ok_bind, List.append_nil]
    cases literals.mapM Literal.value with
    | error failure => rw [outcome_bind_of_error (outcome_lift _)]
    | ok e =>
      rw [outcome_bind_of_ok (outcome_lift _), outcome_report_bind, outcome_pure,
        List.append_assoc, ← Log.upTo_append]
      rfl

/-- Nothing is explained of a text that is read. -/
theorem Log.ofExplanation_eq_nil (explain : String → String) (hp : parse raw = .ok e) :
    ofExplanation explain raw = [] := by
  obtain ⟨normal, hn, he⟩ := bind_eq_ok_iff.1 hp
  obtain ⟨literals, hl, -⟩ := bind_eq_ok_iff.1 he
  rw [ofExplanation, hn]
  simp only [ofRejection, hl]

theorem Log.ofTraceWith_of_error {explain : String → String} (hp : parse raw = .error failure) :
    ofTraceWith explain raw = ofParseWith explain raw := by
  rw [ofTraceWith, ofTrace, hp, List.append_nil, ofParseWith]

theorem Log.ofTraceWith_of_ok {explain : String → String} (hp : parse raw = .ok e) :
    ofTraceWith explain raw = ofParseWith explain raw ++ ofPasses e := by
  rw [ofTraceWith, ofTrace, hp, ofParseWith, ofExplanation_eq_nil explain hp, List.append_nil,
    List.append_nil]

/-- Once a text has been read, the passes and the lines are those of `trace`. -/
theorem outcome_lines (threshold : Option Level) (hn : normalize raw = .ok normal)
    (hp : parse raw = .ok e) (log : Log) :
    (reportPasses threshold e [e.text] >>= fun lines =>
        pure (if lines.head? = some normal then lines else normal :: lines)).outcome log =
      (trace raw, log ++ (Log.ofPasses e).upTo threshold) := by
  have hpasses := outcome_reportPasses threshold e [e.text] log
  rw [← trace_eq_answer] at hpasses
  rw [trace_eq_bind hn hp]
  cases ht : e.trace with
  | error failure => rw [outcome_bind_of_error (hpasses.trans (by rw [ht])), error_bind]
  | ok lines =>
    rw [outcome_bind_of_ok (hpasses.trans (by rw [ht])), ok_bind]
    rfl

/-- **Tracing with a listener is tracing, and reporting what `Log` says.** -/
theorem outcome_reportTrace (explain : String → String) (threshold : Option Level) (raw : String) :
    (reportTrace explain threshold raw).outcome [] =
      (trace raw, (Log.ofTraceWith explain raw).upTo threshold) := by
  rw [reportTrace]
  cases hn : normalize raw with
  | error failure =>
    have hp := parse_eq_error hn
    rw [outcome_bind_of_error (outcome_lift _), trace_eq_error_of_parse hp,
      Log.ofTraceWith_of_error hp, Log.ofParseWith_of_error hn, Log.upTo_nil]
  | ok normal =>
    have hreading := outcome_reportReading explain threshold normal []
    rw [← parse_eq_of_normalize hn, ← Log.ofParseWith_of_ok hn, List.nil_append] at hreading
    rw [outcome_bind_of_ok (outcome_lift _)]
    cases hp : parse raw with
    | error failure =>
      rw [hp] at hreading
      rw [outcome_bind_of_error hreading, trace_eq_error_of_parse hp, Log.ofTraceWith_of_error hp]
    | ok e =>
      rw [hp] at hreading
      rw [outcome_bind_of_ok hreading, outcome_lines threshold hn hp, ← Log.upTo_append,
        Log.ofTraceWith_of_ok hp]

/-- Parsing with a listener is parsing, and reporting what `Log` says. -/
theorem outcome_reportParse (explain : String → String) (threshold : Option Level) (raw : String)
    (log : Log) : (reportParse explain threshold raw).outcome log =
      (parse raw, log ++ (Log.ofParseWith explain raw).upTo threshold) := by
  rw [reportParse]
  cases hn : normalize raw with
  | error failure =>
    rw [outcome_bind_of_error (outcome_lift _), parse_eq_error hn, Log.ofParseWith_of_error hn,
      Log.upTo_nil, List.append_nil]
  | ok normal =>
    rw [outcome_bind_of_ok (outcome_lift _), outcome_reportReading, parse_eq_of_normalize hn,
      Log.ofParseWith_of_ok hn]

/-- **Evaluating with a listener is evaluating, and reporting what `Log` says.** -/
theorem outcome_reportEvaluate (explain : String → String) (threshold : Option Level)
    (raw : String) (log : Log) : (reportEvaluate explain threshold raw).outcome log =
      (evaluate raw, log ++ (Log.ofEvaluateWith explain raw).upTo threshold) := by
  have hparse := outcome_reportParse explain threshold raw log
  rw [reportEvaluate, Log.ofEvaluateWith, Log.ofFailure, Log.upTo_append, ← List.append_assoc]
  have hreduce : (do
      let e ← reportParse explain threshold raw
      e.reduce : Reporting Binary64).outcome log =
        (evaluate raw, log ++ (Log.ofParseWith explain raw).upTo threshold) := by
    rw [evaluate]
    cases hp : parse raw with
    | error failure =>
      rw [hp] at hparse
      exact outcome_bind_of_error hparse _
    | ok e =>
      rw [hp] at hparse
      exact outcome_bind_of_ok hparse _
  cases he : evaluate raw with
  | error failure =>
    rw [he] at hreduce
    rw [outcome_tryCatch_of_error hreduce, outcome_report_bind]
    rfl
  | ok value =>
    rw [he] at hreduce
    rw [outcome_tryCatch_of_ok hreduce, Log.upTo_nil, List.append_nil]

/-! ## The messages -/

theorem zipWith_ofPass (e : Expr Binary64) (trees : List (Expr Binary64)) :
    List.zipWith Log.ofPass (e :: trees) trees =
      (links e.text (trees.map text)).map fun pair => ⟨.trace, reduced pair.1 pair.2⟩ := by
  induction trees generalizing e with
  | nil => rfl
  | cons next trees ih => rw [List.zipWith_cons_cons, ih]; rfl

theorem Log.passMessages_ofPasses (e : Expr Binary64) :
    (ofPasses e).passMessages =
      (links e.text (e.passes.trees.map text)).map fun pair => reduced pair.1 pair.2 := by
  have hlog : ofPasses e = (links e.text (e.passes.trees.map text)).map fun pair =>
      ⟨.trace, reduced pair.1 pair.2⟩ := zipWith_ofPass e e.passes.trees
  have hlevel : ∀ entry ∈ ofPasses e, decide (entry.level = .trace) = true := by
    intro entry hmem
    rw [hlog] at hmem
    obtain ⟨pair, -, rfl⟩ := List.mem_map.1 hmem
    rfl
  rw [passMessages, List.filter_eq_self.2 hlevel, hlog, List.map_map]
  rfl

theorem Log.passMessages_ofTrace_of_error (hp : parse raw = .error failure) :
    (ofTrace raw).passMessages = [] := by
  rw [ofTrace, hp, passMessages_append, passMessages_ofParse]
  rfl

theorem Log.passMessages_ofTrace_of_ok (hp : parse raw = .ok e) :
    (ofTrace raw).passMessages =
      (links e.text (e.passes.trees.map text)).map fun pair => reduced pair.1 pair.2 := by
  rw [ofTrace, hp, passMessages_append, passMessages_ofParse]
  exact passMessages_ofPasses e

/-- An explanation is no message of a pass. -/
theorem Log.passMessages_ofTraceWith (explain : String → String) (raw : String) :
    (ofTraceWith explain raw).passMessages = (ofTrace raw).passMessages := by
  rw [ofTraceWith, passMessages_append, passMessages_ofExplanation, List.append_nil]

end Texts

/-! ## Reading the messages back -/

/-- The mark around the texts in a message. -/
def quotationMark : Char := '\x27'

theorem quotationMark_notMem_text {e : Expr Binary64} (h : e.IsReadable) :
    quotationMark ∉ e.text.toList := by
  intro hmem
  obtain ⟨-, literals, hl, -⟩ := h.canonical.exists_literals h.finite 0
  rw [toList_text] at hmem
  have hpermitted := (Grammar.isNested_of_isExpr hl).permitted _ hmem
  exact absurd hpermitted.1 (by decide)

theorem toList_reduced (before after : String) :
    (reduced before after).toList = "Reduced '".toList ++ (before.toList ++
      quotationMark :: (" to '".toList ++ (after.toList ++ [quotationMark]))) := by
  show ("Reduced '" ++ before ++ "' to '" ++ after ++ "'").toList = _
  simp only [String.toList_append, List.append_assoc]
  rfl

/-- A text is known up to its first mark. -/
theorem eq_of_append_mark {left left' right right' : List Char} (h : quotationMark ∉ left)
    (h' : quotationMark ∉ left')
    (heq : left ++ quotationMark :: right = left' ++ quotationMark :: right') :
    left = left' ∧ right = right' := by
  have htake : ∀ {left : List Char} (right : List Char), quotationMark ∉ left →
      (left ++ quotationMark :: right).takeWhile (· != quotationMark) = left := by
    intro left right hnone
    have hall : ∀ c ∈ left, (c != quotationMark) = true := fun c hc =>
      bne_iff_ne.2 fun heq => hnone (heq ▸ hc)
    rw [List.takeWhile_append_of_pos hall, List.takeWhile_cons_of_neg (by simp), List.append_nil]
  have hleft : left = left' := by rw [← htake right h, heq, htake right' h']
  subst hleft
  exact ⟨rfl, (List.cons.inj (List.append_cancel_left heq)).2⟩

/-- **A message says which texts it is about**, if there is no mark in them. -/
theorem reduced_inj {before after before' after' : String}
    (hbefore : quotationMark ∉ before'.toList) (hafter : quotationMark ∉ after'.toList)
    (h : reduced before after = reduced before' after') : before = before' ∧ after = after' := by
  have hlist := congrArg String.toList h
  rw [toList_reduced, toList_reduced] at hlist
  have htail := List.append_cancel_left hlist
  -- the marks are counted to see that the other two texts have none either
  have hcount := congrArg (List.count quotationMark) htail
  simp only [List.count_append, List.count_cons_self, List.count_eq_zero_of_not_mem hbefore,
    List.count_eq_zero_of_not_mem hafter] at hcount
  have hnone : quotationMark ∉ before.toList := List.count_eq_zero.1 (by omega)
  obtain ⟨hfirst, hrest⟩ := eq_of_append_mark hnone hbefore htail
  have hsecond := List.append_cancel_right (List.append_cancel_left hrest)
  exact ⟨String.toList_inj.1 hfirst, String.toList_inj.1 hsecond⟩

/-- So a list of messages is the list of messages of one list of pairs only. -/
theorem map_reduced_eq_iff {pairs pairs' : List (String × String)}
    (h : ∀ pair ∈ pairs', quotationMark ∉ pair.1.toList ∧ quotationMark ∉ pair.2.toList) :
    pairs'.map (fun pair => reduced pair.1 pair.2) =
        pairs.map (fun pair => reduced pair.1 pair.2) ↔ pairs = pairs' := by
  refine ⟨fun heq => ?_, fun heq => by rw [heq]⟩
  induction pairs' generalizing pairs with
  | nil => exact List.map_eq_nil_iff.1 heq.symm
  | cons pair' pairs' ih =>
    obtain ⟨pair, pairs, rfl, hhead, htail⟩ := List.map_eq_cons_iff.1 heq.symm
    obtain ⟨hbefore, hafter⟩ := h pair' (.head _)
    have hpair := reduced_inj hbefore hafter hhead
    rw [Prod.ext hpair.1 hpair.2, ih (fun pair hmem => h pair (.tail _ hmem)) htail.symm]

theorem mem_of_mem_links {first : String} {rest : List String} {pair : String × String}
    (h : pair ∈ links first rest) : pair.1 ∈ first :: rest ∧ pair.2 ∈ first :: rest := by
  induction rest generalizing first with
  | nil => cases h
  | cons next rest ih =>
    rcases List.mem_cons.1 h with rfl | h
    · exact ⟨.head _, .tail _ (.head _)⟩
    · exact ⟨.tail _ (ih h).1, .tail _ (ih h).2⟩

/-! ## The passes -/

/-- The passes of a run lead to a number, or to the tree from which a pass fails. -/
theorem Expr.exists_passesThrough (e : Expr Binary64) :
    ∃ last, PassesThrough e e.passes.trees last ∧
      (e.passes.failure = none → last.step = .ok none) ∧
      ∀ failure, e.passes.failure = some failure → last.step = .error failure := by
  induction e using passInduction with
  | number value =>
    rw [passes_number]
    exact ⟨_, .nil _, fun _ => step_eq_none_iff.2 ⟨value, rfl⟩, fun failure h => by cases h⟩
  | failed e failure h =>
    rw [passes_eq_of_error h]
    refine ⟨e, .nil e, fun hnone => (by cases hnone), fun failure' hsome => ?_⟩
    rw [← Option.some.inj hsome]
    exact step_eq_error_iff.2 h
  | moved e next h ih =>
    obtain ⟨last, run, hnone, hsome⟩ := ih
    rw [passes_eq_of_moved h]
    exact ⟨last, .cons (step_eq_some_iff.2 h) run, hnone, hsome⟩

/-- **The messages of a run tell the same as its lines.** -/
theorem exists_tellsTrace {raw normal : String} {e : Expr Binary64}
    (hn : normalize raw = .ok normal) (hp : parse raw = .ok e) :
    ∃ trees last, TellsTrace normal e
      ((links e.text (e.passes.trees.map text)).map fun pair => reduced pair.1 pair.2)
      (trace raw) trees last := by
  obtain ⟨last, run, hnone, hsome⟩ := e.exists_passesThrough
  have hmarks : ∀ line ∈ (e :: e.passes.trees).map text, quotationMark ∉ line.toList := by
    intro line hmem
    obtain ⟨tree, htree, rfl⟩ := List.mem_map.1 hmem
    exact quotationMark_notMem_text
      ((reaches_of_mem_passes e tree htree).isReadable (isReadable_of_parse hp))
  refine ⟨e.passes.trees, last, run, fun pairs => map_reduced_eq_iff fun pair hmem => ?_,
    fun lines h => ?_, fun failure h => ?_⟩
  · obtain ⟨hbefore, hafter⟩ := mem_of_mem_links hmem
    exact ⟨hmarks _ hbefore, hmarks _ hafter⟩
  · rw [trace_eq_bind hn hp] at h
    obtain ⟨lines', ht, hlines⟩ := bind_eq_ok_iff.1 h
    obtain ⟨hfailure, htexts⟩ := trace_eq_ok_iff.1 ht
    refine ⟨hnone hfailure, ?_⟩
    subst htexts
    rw [← Except.ok.inj hlines]
    by_cases htext : normal = e.text
    · simp [htext]
    · simp [htext, Ne.symm htext]
  · exact hsome failure (trace_eq_error_iff.1 ((trace_eq_error_iff_of_parse hp).1 h))

/-- **The log of a trace tells the same as the trace.**  Whatever its threshold, a listener makes no
difference to the answer, and hears of the whole log what is not below the threshold; at the lowest
level that is all.  There is no message of a pass if the text is not parsed.  If it is, the messages
link the text of the tree to the texts of the trees that the passes lead to, one after the other.
If there is an answer these are its lines, but for the normal form before them where it is another
text; and if not, they are of the passes before the one that fails, and it fails with that error. -/
theorem log_tells_trace (explain : String → String) (raw : String) :
    (∀ threshold, (reportTrace explain threshold raw).outcome [] =
      (trace raw, (Log.ofTraceWith explain raw).upTo threshold)) ∧
    (Log.ofTraceWith explain raw).upTo (some .trace) = Log.ofTraceWith explain raw ∧
    (∀ failure, parse raw = .error failure → (Log.ofTraceWith explain raw).passMessages = []) ∧
    ∀ normal e, normalize raw = .ok normal → parse raw = .ok e → ∃ trees last,
      TellsTrace normal e (Log.ofTraceWith explain raw).passMessages (trace raw) trees last := by
  rw [Log.passMessages_ofTraceWith]
  refine ⟨fun threshold => outcome_reportTrace explain threshold raw, Log.upTo_trace _,
    fun failure => Log.passMessages_ofTrace_of_error, fun normal e hn hp => ?_⟩
  rw [Log.passMessages_ofTrace_of_ok hp]
  exact exists_tellsTrace hn hp

/-- Of `(0)/0` one pass succeeds.  Its message is there although the lines are lost. -/
theorem log_tells_trace_zero_divisor :
    parse "(0)/0" =
        .ok (binary (group (number (.ofBits 0))) .divide (number (.ofBits 0))) ∧
      trace "(0)/0" = .error .divisionByZero ∧
      ∃ trees last, last.step = .error .divisionByZero ∧
        TellsTrace "(0)/0" (binary (group (number (.ofBits 0))) .divide (number (.ofBits 0)))
          ["Reduced '(0)/0' to '0/0'"] (trace "(0)/0") trees last := by
  have hn : normalize "(0)/0" = .ok "(0)/0" := by rfl
  have hp : parse "(0)/0" =
      .ok (binary (group (number (.ofBits 0))) .divide (number (.ofBits 0))) := by rfl
  have hmoved : advance (binary (group (number (.ofBits 0))) .divide (number (.ofBits 0))) =
      .ok (.moved (binary (number (.ofBits 0)) .divide (number (.ofBits 0)))) := by rfl
  have hfailed : advance (binary (number (.ofBits 0)) .divide (number (.ofBits 0))) =
      .error .divisionByZero := by rfl
  have hpasses := passes_eq_of_moved hmoved
  rw [passes_eq_of_error hfailed] at hpasses
  have htrace : trace "(0)/0" = .error .divisionByZero :=
    (trace_eq_error_iff_of_parse hp).2 (trace_eq_error_iff.2 (by rw [hpasses]))
  have hmessages : (Log.ofTraceWith id "(0)/0").passMessages = ["Reduced '(0)/0' to '0/0'"] := by
    rw [Log.passMessages_ofTraceWith, Log.passMessages_ofTrace_of_ok hp, hpasses]
    rfl
  obtain ⟨-, -, -, htells⟩ := log_tells_trace id "(0)/0"
  obtain ⟨trees, last, h⟩ := htells _ _ hn hp
  rw [hmessages] at h
  exact ⟨hp, htrace, trees, last, h.failed _ htrace, h⟩

end Calculator
