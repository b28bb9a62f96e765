import Calculator.Proofs.OnePlace
import Calculator.Proofs.Trace
import Mathlib.Algebra.GroupWithZero.Nat

/-!
# How many passes there are

Counting operators does not tell how many passes a run has.  In `(2)+3` the first pass is spent on
parentheses, and in `-((1+2))` one pass takes away an operator, two pairs of parentheses and a sign.
`CountsPasses` says what does: every operator is a pass of its own, and so are a chain that has none
and signs and parentheses that have nothing but a number in them.

`Expr.passCount` is the one function that counts like this (`countsPasses_iff`), and a pass always
lowers it by one.  So it does not only bound the length of a run but is the length of every run that
does not fail (`run_counts_down`).
-/

set_option autoImplicit false

namespace Calculator
namespace Expr

/-! ## Counting -/

/-- The equations of a count of passes. -/
structure CountsPasses (count : Expr Binary64 → Nat) : Prop where
  number : ∀ value, count (number value) = 0
  group : ∀ inner, count (group inner) = if inner.asNumber?.isSome then 1 else count inner
  negate : ∀ inner, count (negate inner) = if inner.asNumber?.isSome then 1 else count inner
  chain : ∀ first rest, count (chain first rest) =
    count first + (rest.map fun link => count link.2).sum +
      if rest.isEmpty then 1 else rest.length

theorem isSome_asNumber?_iff {e : Expr Binary64} :
    e.asNumber?.isSome = true ↔ ∃ value, e = number value := by
  cases e with
  | number value => exact ⟨fun _ => ⟨value, rfl⟩, fun _ => rfl⟩
  | negate | group | chain => simp [asNumber?]

/-- Signs and parentheses cost a pass only around a number. -/
theorem max_one_passCount (inner : Expr Binary64) :
    max 1 inner.passCount = if inner.asNumber?.isSome then 1 else inner.passCount := by
  by_cases h : inner.asNumber?.isSome = true
  · obtain ⟨value, rfl⟩ := isSome_asNumber?_iff.1 h
    rfl
  · have hpos : inner.passCount ≠ 0 := fun hzero =>
      h (isSome_asNumber?_iff.2 (passCount_eq_zero_iff.1 hzero))
    rw [if_neg h]
    omega

theorem passCountRest_eq_sum (rest : List (Operator × Expr Binary64)) :
    passCountRest rest = (rest.map fun link => link.2.passCount).sum := by
  induction rest with
  | nil => rfl
  | cons link rest ih => rw [passCountRest, ih, List.map_cons, List.sum_cons]

theorem max_one_length (rest : List (Operator × Expr Binary64)) :
    max 1 rest.length = if rest.isEmpty then 1 else rest.length := by
  cases rest with
  | nil => rfl
  | cons link rest => exact Nat.max_eq_right (Nat.succ_pos _)

theorem countsPasses_passCount : CountsPasses passCount where
  number := passCount_number
  group inner := max_one_passCount inner
  negate inner := max_one_passCount inner
  chain first rest := by rw [passCount, passCountRest_eq_sum, max_one_length]

/-- **The equations have one solution.** -/
theorem countsPasses_iff {count : Expr Binary64 → Nat} :
    CountsPasses count ↔ count = passCount := by
  constructor
  · intro h
    funext e
    induction e using Expr.induction with
    | number value => rw [h.number, passCount_number]
    | negate inner ih => rw [h.negate, ih, countsPasses_passCount.negate]
    | group inner ih => rw [h.group, ih, countsPasses_passCount.group]
    | chain first rest ihf ihr =>
      rw [h.chain, ihf, List.map_congr_left ihr, countsPasses_passCount.chain]
  · rintro rfl
    exact countsPasses_passCount

/-! ## One pass -/

theorem step_eq_none_iff {e : Expr Binary64} :
    e.step = .ok none ↔ ∃ value, e = number value := by
  rw [step, map_eq_ok_iff]
  constructor
  · rintro ⟨progress, hadvance, hnone⟩
    cases progress with
    | finished value => exact ⟨value, advance_eq_finished_iff.1 hadvance⟩
    | moved next => cases hnone
  · rintro ⟨value, rfl⟩
    exact ⟨.finished value, advance_eq_finished_iff.2 rfl, rfl⟩

theorem passCount_of_step {e next : Expr Binary64} (h : e.step = .ok (some next)) :
    next.passCount + 1 = e.passCount :=
  passCount_of_advance e next (step_eq_some_iff.1 h)

/-- A change at one place takes away one operator at most. -/
theorem ChangesOnePlace.length_operators {numbers numbers' : List Binary64}
    {operators operators' : List Operator}
    (h : ChangesOnePlace numbers operators numbers' operators') :
    operators'.length = operators.length ∨ operators'.length + 1 = operators.length := by
  cases h with
  | same | negated => exact .inl rfl
  | applied =>
    refine .inr ?_
    rw [List.length_append, List.length_append, List.length_cons]
    rfl

theorem operationCount_of_step {e next : Expr Binary64} (h : e.step = .ok (some next)) :
    next.operationCount = e.operationCount ∨ next.operationCount + 1 = e.operationCount := by
  rw [operationCount_eq_length_operators, operationCount_eq_length_operators]
  exact (pass_of_step h).changesOnePlace.length_operators

/-! ## Many passes -/

/-- So many passes, each of which succeeds, lead from one expression to the other. -/
inductive ReachesIn : Nat → Expr Binary64 → Expr Binary64 → Prop
  | refl (e : Expr Binary64) : ReachesIn 0 e e
  | pass {passes : Nat} {e next last : Expr Binary64} (h : e.step = .ok (some next))
      (run : ReachesIn passes next last) : ReachesIn (passes + 1) e last

/-- No pass goes on from the expression. -/
def IsLast (e : Expr Binary64) : Prop :=
  (∃ value, e = number value) ∨ ∃ failure, e.step = .error failure

/-- **The count says how far a run has come.** -/
theorem ReachesIn.add_passCount {passes : Nat} {e last : Expr Binary64}
    (run : ReachesIn passes e last) : passes + last.passCount = e.passCount := by
  induction run with
  | refl => exact Nat.zero_add _
  | pass h _ ih =>
    have := passCount_of_step h
    omega

/-- **Every run comes to an end**, and the run as a list is all of it. -/
theorem exists_reachesIn_passes (e : Expr Binary64) :
    ∃ last, ReachesIn e.passes.trees.length e last ∧ last.IsLast ∧
      (e.passes.failure = none → ∃ value, last = number value) := by
  induction e using passInduction with
  | number value =>
    rw [passes_number]
    exact ⟨_, .refl _, .inl ⟨value, rfl⟩, fun _ => ⟨value, rfl⟩⟩
  | failed e failure h =>
    rw [passes_eq_of_error h]
    exact ⟨e, .refl e, .inr ⟨failure, step_eq_error_iff.2 h⟩, fun hnone => by cases hnone⟩
  | moved e next h ih =>
    obtain ⟨last, run, hlast, hvalue⟩ := ih
    rw [passes_eq_of_moved h]
    exact ⟨last, .pass (step_eq_some_iff.2 h) run, hlast, hvalue⟩

theorem length_passes {e : Expr Binary64} (h : e.passes.failure = none) :
    e.passes.trees.length = e.passCount := by
  obtain ⟨last, run, -, hvalue⟩ := exists_reachesIn_passes e
  obtain ⟨value, rfl⟩ := hvalue h
  rw [← run.add_passCount, passCount_number, Nat.add_zero]

/-- A trace has one line for the beginning and one for every pass, and ends at a number. -/
theorem length_of_trace {e : Expr Binary64} {lines : List String} (h : e.trace = .ok lines) :
    lines.length = e.passCount + 1 ∧
      ∃ value, lines.getLast? = some (number value : Expr Binary64).text := by
  obtain ⟨hnone, rfl⟩ := trace_eq_ok_iff.1 h
  obtain ⟨value, hvalue⟩ := (failure_passes_eq_none_iff e).1 hnone
  refine ⟨by rw [List.length_map, List.length_cons, length_passes hnone], value, ?_⟩
  rw [List.getLast?_map, getLast?_passes hvalue]
  rfl

/-- **A run counts down.**  There is one way to count so that each operator, each chain without any
and each layer of signs and parentheses around a number is one.  A step is left to do exactly where
there is no number; it lowers the count by one, and takes away one operator at most.  So there are
no more passes than were counted, whether the run fails or not; and if it does not, the trace has
one line more than that, and ends at a number. -/
theorem run_counts_down (e : Expr Binary64) :
    (∀ count, CountsPasses count ↔ count = passCount) ∧
    (e.step = .ok none ↔ ∃ value, e = number value) ∧
    (∀ next, e.step = .ok (some next) → next.passCount + 1 = e.passCount ∧
      (next.operationCount = e.operationCount ∨ next.operationCount + 1 = e.operationCount)) ∧
    (∀ passes last, ReachesIn passes e last → passes + last.passCount = e.passCount) ∧
    (e.passes.trees.length ≤ e.passCount ∧
      ∃ last, ReachesIn e.passes.trees.length e last ∧ last.IsLast) ∧
    ∀ lines, e.trace = .ok lines → lines.length = e.passCount + 1 ∧
      ∃ value, lines.getLast? = some (number value : Expr Binary64).text := by
  refine ⟨fun count => countsPasses_iff, step_eq_none_iff,
    fun next h => ⟨passCount_of_step h, operationCount_of_step h⟩,
    fun passes last run => run.add_passCount, ?_, fun lines => length_of_trace⟩
  obtain ⟨last, run, hlast, -⟩ := exists_reachesIn_passes e
  have := run.add_passCount
  exact ⟨by omega, last, run, hlast⟩

/-- In `(0)+0` one pass is for the parentheses and one for the sum. -/
theorem run_counts_down_parentheses :
    (binary (group (number (.ofBits 0))) .add (number (.ofBits 0))).step =
        .ok (some (binary (number (.ofBits 0)) .add (number (.ofBits 0)))) ∧
      (binary (number (.ofBits 0)) .add (number (.ofBits 0))).passCount + 1 =
        (binary (group (number (.ofBits 0))) .add (number (.ofBits 0))).passCount ∧
      ReachesIn 2 (binary (group (number (.ofBits 0))) .add (number (.ofBits 0)))
        (number (.ofBits 0)) ∧
      2 + (number (.ofBits 0)).passCount =
        (binary (group (number (.ofBits 0))) .add (number (.ofBits 0))).passCount ∧
      ∃ lines, (binary (group (number (.ofBits 0))) .add (number (.ofBits 0))).trace = .ok lines ∧
        lines.length =
          (binary (group (number (.ofBits 0))) .add (number (.ofBits 0))).passCount + 1 := by
  have hfirst : (binary (group (number (.ofBits 0))) .add (number (.ofBits 0))).step =
      .ok (some (binary (number (.ofBits 0)) .add (number (.ofBits 0)))) := by rfl
  have hsecond : (binary (number (.ofBits 0)) .add (number (.ofBits 0))).step =
      .ok (some (number (.ofBits 0))) := by rfl
  have hrun : ReachesIn 2 (binary (group (number (.ofBits 0))) .add (number (.ofBits 0)))
      (number (.ofBits 0)) := .pass hfirst (.pass hsecond (.refl _))
  have hvalue : (binary (group (number (.ofBits 0))) .add (number (.ofBits 0))).reduce =
      .ok (.ofBits 0) := by rfl
  have htrace := trace_eq_ok_iff.2 ⟨(failure_passes_eq_none_iff _).2 ⟨_, hvalue⟩, rfl⟩
  obtain ⟨-, -, hpass, hcount, -, hlines⟩ :=
    run_counts_down (binary (group (number (.ofBits 0))) .add (number (.ofBits 0)))
  exact ⟨hfirst, (hpass _ hfirst).1, hrun, hcount _ _ hrun, _, htrace, (hlines _ htrace).1⟩

end Expr
end Calculator
