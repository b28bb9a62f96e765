import Calculator.Expr.Reduce
import Calculator.Proofs.Pass

/-!
# A pass keeps the value

`Expr.reduce` applies operators while it still goes through a chain; a pass applies the one operator
that is next, wherever it stands.  The two meet in the running state that evaluation is in when it
reaches the left operand of that operator (`Running.reached`): to apply the operator beforehand
leaves behind the same state, or at least one with the same total.

* `Pass.reduce_eq` — a pass changes neither the value of an expression nor the error in its place.
* `Fault.reduce_eq_error` — an expression from which a pass fails has no value.
-/

set_option autoImplicit false

namespace Calculator
namespace Expr

/-! ## Evaluation along a chain -/

section Chain

variable {first operand : Expr Binary64} {operator : Operator} {running running' : Running}
  {value : Binary64} {failure : EvalError} {rest : List (Operator × Expr Binary64)}

theorem reduce_chain (first : Expr Binary64) (rest : List (Operator × Expr Binary64)) :
    (chain first rest).reduce =
      first.reduce.bind fun term => reduceRest { sum := none, term } rest := by
  rw [reduce]
  rfl

theorem reduceRest_cons (running : Running) (operator : Operator) (operand : Expr Binary64)
    (rest : List (Operator × Expr Binary64)) :
    reduceRest running ((operator, operand) :: rest) =
      operand.reduce.bind fun value =>
        (running.push operator value).bind fun running => reduceRest running rest := by
  rw [reduceRest]
  rfl

theorem reduceRest_number (running : Running) (operator : Operator) (value : Binary64)
    (rest : List (Operator × Expr Binary64)) :
    reduceRest running ((operator, number value) :: rest) =
      (running.push operator value).bind fun running => reduceRest running rest := by
  rw [reduceRest_cons, reduce]
  rfl

/-- An operand counts only through its value, and so does the error in its place. -/
theorem reduceRest_congr {operand' : Expr Binary64} (h : operand'.reduce = operand.reduce)
    (running : Running) (links : List (Operator × Expr Binary64)) :
    reduceRest running (links ++ (operator, operand') :: rest) =
      reduceRest running (links ++ (operator, operand) :: rest) := by
  induction links generalizing running with
  | nil => simp only [List.nil_append, reduceRest_cons, h]
  | cons link links ih =>
    obtain ⟨operator', operand'⟩ := link
    simp only [List.cons_append, reduceRest_cons, ih]

/-- A chain with an operand that has no value has none either. -/
theorem reduceRest_eq_error (h : operand.reduce = .error failure) (running : Running)
    (links : List (Operator × Expr Binary64)) :
    ∃ failure', reduceRest running (links ++ (operator, operand) :: rest) = .error failure' := by
  induction links generalizing running with
  | nil => exact ⟨failure, by rw [List.nil_append, reduceRest_cons, h]; rfl⟩
  | cons link links ih =>
    obtain ⟨operator', operand'⟩ := link
    rw [List.cons_append, reduceRest_cons]
    cases operand'.reduce with
    | error failure' => exact ⟨failure', rfl⟩
    | ok value =>
      cases hp : running.push operator' value with
      | error failure' => exact ⟨failure', by simp [Except.bind, hp]⟩
      | ok running' => simpa [Except.bind, hp] using ih running'

/-- A chain without operators has the value of its operand. -/
theorem reduce_ofChain (first : Expr Binary64) (rest : List (Operator × Expr Binary64)) :
    (ofChain first rest).reduce = (chain first rest).reduce := by
  cases rest with
  | nil =>
    rw [reduce_chain, ofChain]
    cases first.reduce with
    | error failure => rfl
    | ok value => simp [Except.bind, reduceRest, Running.total]
  | cons link rest => rfl

end Chain

/-! ## The state at the left operand -/

namespace Running

/-- The state in which evaluation has taken in a chain of numbers up to `operand`, where `before`
are the numbers to its left, nearest first, each with the operator after it. -/
def reached : List (Binary64 × Operator) → Binary64 → Except EvalError Running
  | [], operand => .ok { sum := none, term := operand }
  | (left, operator) :: before, operand =>
    (reached before left).bind fun running => running.push operator operand

theorem push_upper {operator : Operator} (h : 1 < operator.precedence) (running : Running)
    (value : Binary64) : running.push operator value =
      (operator.apply running.term value).map fun term => { running with term } := by
  rw [push, if_pos h]

theorem push_lower {operator : Operator} (h : operator.precedence ≤ 1) (running : Running)
    (value : Binary64) : running.push operator value =
      running.total.map fun sum => { sum := some (sum, operator), term := value } := by
  rw [push, if_neg (Nat.not_lt.2 h)]

/-- After operators of the lower tier alone, the sum does not depend on the operand that is
reached. -/
theorem reached_eq_map {before : List (Binary64 × Operator)}
    (lower : ∀ link ∈ before, link.2.precedence ≤ 1) :
    ∃ sum : Except EvalError (Option (Binary64 × Operator)),
      ∀ operand, reached before operand = sum.map fun sum => { sum, term := operand } := by
  cases before with
  | nil => exact ⟨.ok none, fun _ => rfl⟩
  | cons link before =>
    obtain ⟨left, operator⟩ := link
    refine ⟨(reached before left).bind fun running =>
      running.total.map fun sum => some (sum, operator), fun operand => ?_⟩
    rw [reached]
    cases reached before left with
    | error failure => rfl
    | ok running =>
      simp only [Except.bind, push_lower (lower _ (.head _))]
      cases running.total <;> rfl

end Running

theorem reduce_numberChain_unwind (before : List (Binary64 × Operator)) (operand : Binary64)
    (after : List (Operator × Binary64)) :
    (numberChain (unwind before operand after)).reduce =
      (Running.reached before operand).bind fun running =>
        reduceRest running (after.map numberLink) := by
  induction before generalizing operand after with
  | nil =>
    rw [unwind, numberChain, reduce_chain, reduce]
    rfl
  | cons link before ih =>
    obtain ⟨left, operator⟩ := link
    rw [unwind, ih, Running.reached]
    cases Running.reached before left with
    | error failure => rfl
    | ok running =>
      simp [Except.bind, numberLink, reduceRest_number]

/-! ## The operator that is next -/

/-- Before an operator of the lower tier, and at the end, only the total of a state counts. -/
theorem reduceRest_congr_total {running running' : Running} (h : running.total = running'.total)
    {rest : List (Operator × Binary64)} (lower : ∀ link ∈ rest, link.1.precedence ≤ 1) :
    reduceRest running (rest.map numberLink) = reduceRest running' (rest.map numberLink) := by
  cases rest with
  | nil => simpa only [List.map_nil, reduceRest] using h
  | cons link rest =>
    simp only [List.map_cons, numberLink, reduceRest_number,
      Running.push_lower (lower link (.head _)), h]

section Next

variable {before : List (Binary64 × Operator)} {left : Binary64} {operator : Operator}
  {right : Binary64} {after : List (Operator × Binary64)}

/-- **To apply the operator that is next beforehand does not change the value of a chain.** -/
theorem reduce_unwind_of_apply {value : Binary64} (next : IsNext before operator after)
    (h : operator.apply left right = .ok value) :
    (numberChain (unwind before value after)).reduce =
      (numberChain (unwind before left ((operator, right) :: after))).reduce := by
  rw [reduce_numberChain_unwind, reduce_numberChain_unwind]
  simp only [List.map_cons, numberLink, reduceRest_number]
  cases next with
  | upper upper lower =>
    obtain ⟨sum, hsum⟩ := Running.reached_eq_map lower
    rw [hsum, hsum]
    cases sum with
    | error failure => rfl
    | ok sum => simp [Except.bind, Except.map, Running.push_upper upper, h]
  | lower lower lowerAfter =>
    simp only [Running.reached, Except.bind, Running.push_lower lower, Running.total, Except.map]
    refine reduceRest_congr_total ?_ lowerAfter
    exact h.symm

/-- A chain whose next operator cannot be applied has no value. -/
theorem reduce_unwind_of_error {failure : EvalError} (next : IsNext before operator after)
    (h : operator.apply left right = .error failure) :
    ∃ failure',
      (numberChain (unwind before left ((operator, right) :: after))).reduce = .error failure' := by
  rw [reduce_numberChain_unwind]
  simp only [List.map_cons, numberLink, reduceRest_number]
  cases next with
  | upper upper lower =>
    obtain ⟨sum, hsum⟩ := Running.reached_eq_map lower
    rw [hsum]
    cases sum with
    | error failure' => exact ⟨failure', rfl⟩
    | ok sum => exact ⟨failure, by simp [Except.bind, Except.map, Running.push_upper upper, h]⟩
  | lower lower lowerAfter =>
    refine ⟨failure, ?_⟩
    simp only [Running.reached, Except.bind, Running.push_lower lower, Running.total, Except.map]
    cases after with
    | nil => simpa only [List.map_nil, reduceRest, Running.total] using h
    | cons link after =>
      simp [numberLink, reduceRest_number, Running.push_lower (lowerAfter link (.head _)),
        Running.total, h, Except.map, Except.bind]

end Next

/-! ## A pass -/

/-- **A pass changes neither the value of an expression nor the error in its place.** -/
theorem Pass.reduce_eq {e next : Expr Binary64} (h : Pass e next) : next.reduce = e.reduce := by
  induction h with
  | groupNumber value => simp only [reduce]
  | groupFinished _ ih => rw [ih, reduce]
  | group _ _ ih => rw [reduce, ih, reduce]
  | negateNumber value => simp only [reduce, Except.map]
  | negateFinished _ ih => rw [reduce, reduce, ← ih, reduce, Except.map]
  | negate _ _ ih => rw [reduce, ih, reduce]
  | first _ ih => rw [reduce_chain, reduce_chain, ih]
  | operand _ ih => simp only [reduce_chain, reduceRest_congr ih]
  | lone value => exact reduce_ofChain (number value) []
  | apply next h => rw [ofNumbers, reduce_ofChain]; exact reduce_unwind_of_apply next h

/-- **An expression from which a pass fails has no value.** -/
theorem Fault.reduce_eq_error {e : Expr Binary64} {failure : EvalError} (h : Fault e failure) :
    ∃ failure', e.reduce = .error failure' := by
  induction h with
  | group _ ih => rwa [reduce]
  | negate _ ih =>
    obtain ⟨failure', h⟩ := ih
    exact ⟨failure', by rw [reduce, h]; rfl⟩
  | first _ ih =>
    obtain ⟨failure', h⟩ := ih
    exact ⟨failure', by rw [reduce_chain, h]; rfl⟩
  | operand _ ih =>
    obtain ⟨failure', h⟩ := ih
    rw [reduce_chain, reduce]
    exact reduceRest_eq_error h _ _
  | apply next h => exact reduce_unwind_of_error next h

end Expr
end Calculator
