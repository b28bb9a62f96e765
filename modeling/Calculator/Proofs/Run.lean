import Calculator.Expr.Passes
import Calculator.Proofs.Value

/-!
# Runs of passes

One pass after another leads from an expression to others (`Reaches`), and every run comes to an
end (`passInduction`): at a number, or at an expression from which a pass fails.  `Expr.passes` is
the whole run as a list.

What a pass preserves, every expression of a run has (`Reaches.invariant`).  The value is preserved,
so a run ends at the number that `Expr.reduce` computes, or there is no such number and the run
fails: `reduce_eq_ok_iff_reaches`, and in one statement `reduce_agrees_with_step`.
-/

set_option autoImplicit false

namespace Calculator
namespace Expr

/-! ## One pass -/

theorem step_eq_some_iff {e next : Expr Binary64} :
    e.step = .ok (some next) ↔ advance e = .ok (.moved next) := by
  rw [step]
  match advance e with
  | .error failure => simp [Except.map]
  | .ok (.finished value) => simp [Except.map, Progress.next?]
  | .ok (.moved next') => simp [Except.map, Progress.next?]

theorem step_eq_error_iff {e : Expr Binary64} {failure : EvalError} :
    e.step = .error failure ↔ advance e = .error failure := by
  rw [step]
  cases advance e <;> simp [Except.map]

theorem pass_of_step {e next : Expr Binary64} (h : e.step = .ok (some next)) : Pass e next :=
  pass_of_advance (step_eq_some_iff.1 h)

/-- Induction along a run, from its end to its beginning. -/
theorem passInduction {motive : Expr Binary64 → Prop} (number : ∀ value, motive (number value))
    (failed : ∀ e failure, advance e = .error failure → motive e)
    (moved : ∀ e next, advance e = .ok (.moved next) → motive next → motive e)
    (e : Expr Binary64) : motive e := by
  match h : advance e with
  | .error failure => exact failed e failure h
  | .ok (.finished value) => exact advance_eq_finished_iff.1 h ▸ number value
  | .ok (.moved next) =>
    have : next.passCount < e.passCount := by have := passCount_of_advance e next h; omega
    exact moved e next h (passInduction number failed moved next)
termination_by e.passCount

/-! ## Many passes -/

/-- Some number of passes, each of which succeeds, leads from one expression to the other. -/
inductive Reaches : Expr Binary64 → Expr Binary64 → Prop
  | refl (e : Expr Binary64) : Reaches e e
  | pass {e next last : Expr Binary64} (h : e.step = .ok (some next)) (run : Reaches next last) :
      Reaches e last

/-- **What every pass preserves, every run preserves.** -/
theorem Reaches.invariant {P : Expr Binary64 → Prop} (keep : ∀ e next, Pass e next → P e → P next)
    {e last : Expr Binary64} (run : Reaches e last) (h : P e) : P last := by
  induction run with
  | refl => exact h
  | pass hstep _ ih => exact ih (keep _ _ (pass_of_step hstep) h)

theorem Reaches.reduce_eq {e last : Expr Binary64} (run : Reaches e last) :
    last.reduce = e.reduce :=
  run.invariant (P := fun x => x.reduce = e.reduce) (fun _ _ hp hx => hp.reduce_eq.trans hx) rfl

/-- **The value of an expression is the number at the end of its run.** -/
theorem reduce_eq_ok_iff_reaches {e : Expr Binary64} {value : Binary64} :
    e.reduce = .ok value ↔ Reaches e (number value) := by
  constructor
  · intro h
    induction e using passInduction with
    | number v =>
      rw [reduce] at h
      cases h
      exact .refl _
    | failed e failure hf =>
      obtain ⟨failure', he⟩ := (fault_of_advance hf).reduce_eq_error
      rw [he] at h
      cases h
    | moved e next hm ih =>
      rw [← (pass_of_advance hm).reduce_eq] at h
      exact .pass (step_eq_some_iff.2 hm) (ih h)
  · intro run
    rw [← run.reduce_eq, reduce]

/-! ## The whole run -/

theorem failure_passes_eq_none_iff (e : Expr Binary64) :
    e.passes.failure = none ↔ ∃ value, e.reduce = .ok value := by
  induction e using passInduction with
  | number value => simp [passes_number, reduce]
  | failed e failure h =>
    obtain ⟨failure', he⟩ := (fault_of_advance h).reduce_eq_error
    simp [passes_eq_of_error h, he]
  | moved e next h ih => rw [passes_eq_of_moved h, ← (pass_of_advance h).reduce_eq, ← ih]

theorem trace_eq_ok_iff {e : Expr Binary64} {lines : List String} :
    e.trace = .ok lines ↔ e.passes.failure = none ∧ (e :: e.passes.trees).map text = lines := by
  rw [trace]
  cases e.passes.failure <;> simp

/-- **Evaluation in one go and evaluation pass by pass agree.**  A pass keeps the value and the
error in its place; where a pass fails, so does evaluation; and the value, if there is one, is the
number at which the passes end, which is exactly when there is a trace. -/
theorem reduce_agrees_with_step (e : Expr Binary64) :
    (∀ next, e.step = .ok (some next) → next.reduce = e.reduce) ∧
    (∀ failure, e.step = .error failure → ∃ failure', e.reduce = .error failure') ∧
    (∀ value, e.reduce = .ok value ↔ Reaches e (number value)) ∧
    ((∃ lines, e.trace = .ok lines) ↔ ∃ value, e.reduce = .ok value) := by
  refine ⟨fun next h => (pass_of_step h).reduce_eq, fun failure h => ?_,
    fun value => reduce_eq_ok_iff_reaches, ?_⟩
  · exact (fault_of_advance (step_eq_error_iff.1 h)).reduce_eq_error
  · simp only [trace_eq_ok_iff, exists_and_left, exists_eq', and_true, failure_passes_eq_none_iff]

/-- Of `0/(0)` a pass makes `0/0`, from which no pass goes on; neither has a value. -/
theorem reduce_agrees_with_step_zero_divisor :
    (binary (number (.ofBits 0)) .divide (group (number (.ofBits 0)))).step =
        .ok (some (binary (number (.ofBits 0)) .divide (number (.ofBits 0)))) ∧
      (binary (number (.ofBits 0)) .divide (number (.ofBits 0))).reduce =
        (binary (number (.ofBits 0)) .divide (group (number (.ofBits 0)))).reduce ∧
      (binary (number (.ofBits 0)) .divide (number (.ofBits 0))).step = .error .divisionByZero ∧
      ∃ failure, (binary (number (.ofBits 0)) .divide (number (.ofBits 0))).reduce =
        .error failure := by
  have hstep : (binary (number (.ofBits 0)) .divide (group (number (.ofBits 0)))).step =
      .ok (some (binary (number (.ofBits 0)) .divide (number (.ofBits 0)))) := rfl
  have hfail : (binary (number (.ofBits 0)) .divide (number (.ofBits 0))).step =
      .error .divisionByZero := rfl
  exact ⟨hstep, (reduce_agrees_with_step _).1 _ hstep, hfail,
    (reduce_agrees_with_step _).2.1 _ hfail⟩

end Expr
end Calculator
