import Calculator.Formula
import Calculator.Proofs.Value

/-!
# Precedence

Nothing in an expression says that `*` binds more tightly than `+`; only the loop of `Expr.reduce`
does, with its sum and its running term.  Here the loop is compared with the fully parenthesised
formula of the expression, which has no precedence left in it.

While the loop goes through a chain, its sum and its term are the values of two parts of the formula
(`Represents`), and what the formula will be is known from these parts and from the rest of the
chain (`pending`).  `pending` takes in an operator just as the loop does, so the two stay together
to the end.

Evaluation does not apply the operators in the order in which plain recursion does.  So when several
of them fail the two may report different ones, but what is reported is always a failure of the
formula itself (`HasFault`).

* `yields_reduce` — the outcome of evaluation is an outcome of the formula.
* `reduce_reads_as_formula` — the same, as one statement about values and errors.
-/

set_option autoImplicit false

namespace Calculator
namespace Formula

variable {f g inner left right : Formula} {operator : Operator} {value : Binary64}
  {failure : EvalError}

/-! ## Parts of a formula -/

theorem Within.trans {h : Formula} (hfg : Within f g) (hgh : Within g h) : Within f h := by
  induction hgh with
  | self => exact hfg
  | negate _ ih => exact .negate ih
  | left _ ih => exact .left ih
  | right _ ih => exact .right ih

theorem eval_operation (operator : Operator) (left right : Formula) :
    (operation operator left right).eval =
      left.eval.bind fun left => right.eval.bind fun right => operator.apply left right := by
  rw [eval]
  rfl

/-- Somewhere in a formula an operator fails on two operands that have values. -/
def HasFault (f : Formula) (failure : EvalError) : Prop :=
  ∃ operator left right a b, Within (operation operator left right) f ∧
    left.eval = .ok a ∧ right.eval = .ok b ∧ operator.apply a b = .error failure

theorem HasFault.within (h : HasFault f failure) (hfg : Within f g) : HasFault g failure := by
  obtain ⟨operator, left, right, a, b, hw, ha, hb, hf⟩ := h
  exact ⟨operator, left, right, a, b, hw.trans hfg, ha, hb, hf⟩

/-- Only numbers are at fault where an operator fails. -/
theorem HasFault.isSyntax_eq_false (h : HasFault f failure) : failure.isSyntax = false := by
  obtain ⟨operator, left, right, a, b, -, -, -, hf⟩ := h
  exact Operator.isSyntax_of_apply hf

/-- A value of a formula, or a failure in it. -/
def Yields (f : Formula) : Except EvalError Binary64 → Prop
  | .ok value => f.eval = .ok value
  | .error failure => HasFault f failure

theorem yields_operation (operator : Operator) {a b : Binary64} (ha : left.eval = .ok a)
    (hb : right.eval = .ok b) : Yields (operation operator left right) (operator.apply a b) := by
  cases h : operator.apply a b with
  | ok value =>
    show (operation operator left right).eval = .ok value
    rw [eval_operation, ha, hb]
    exact h
  | error failure => exact ⟨operator, left, right, a, b, .self _, ha, hb, h⟩

/-! ## The formula of a chain, as far as it is known -/

/-- The formula of a sum and a term. -/
def joined (sum : Option (Formula × Operator)) (term : Formula) : Formula :=
  match sum with
  | none => term
  | some (sum, operator) => operation operator sum term

/-- The formula of a chain whose beginning has been taken into `sum` and `term`. -/
def pending (sum : Option (Formula × Operator)) (term : Formula)
    (rest : List (Operator × Formula)) : Formula :=
  nestLeft (joined sum (nestRuns term rest).1) (nestRuns term rest).2

section Pending

variable {sum : Option (Formula × Operator)} {term operand : Formula}
  {rest : List (Operator × Formula)}

theorem ofChain_eq_pending (first : Formula) (rest : List (Operator × Formula)) :
    ofChain first rest = pending none first rest := rfl

theorem pending_nil : pending sum term [] = joined sum term := rfl

theorem pending_upper (h : 1 < operator.precedence) :
    pending sum term ((operator, operand) :: rest) =
      pending sum (operation operator term operand) rest := by
  rw [pending, nestRuns, if_pos h, pending]

theorem pending_lower (h : operator.precedence ≤ 1) :
    pending sum term ((operator, operand) :: rest) =
      pending (some (joined sum term, operator)) operand rest := by
  rw [pending, nestRuns, if_neg (Nat.not_lt.2 h)]
  rfl

/-- The sum and the term so far are parts of the formula. -/
theorem within_pending (sum : Option (Formula × Operator)) (term : Formula)
    (rest : List (Operator × Formula)) :
    Within term (pending sum term rest) ∧
      ∀ total operator, sum = some (total, operator) → Within total (pending sum term rest) := by
  induction rest generalizing sum term with
  | nil =>
    rw [pending_nil]
    cases sum with
    | none => exact ⟨.self _, by simp⟩
    | some link => exact ⟨.right (.self _), by rintro _ _ ⟨rfl⟩; exact .left (.self _)⟩
  | cons link rest ih =>
    obtain ⟨operator, operand⟩ := link
    rcases Nat.lt_or_ge 1 operator.precedence with h | h
    · rw [pending_upper h]
      obtain ⟨hterm, hsum⟩ := ih sum (operation operator term operand)
      exact ⟨Within.trans (.left (.self _)) hterm, hsum⟩
    · rw [pending_lower h]
      have hjoined := (ih (some (joined sum term, operator)) operand).2 _ _ rfl
      cases sum with
      | none => exact ⟨hjoined, by simp⟩
      | some link =>
        refine ⟨Within.trans (.right (.self _)) hjoined, ?_⟩
        rintro _ _ ⟨rfl⟩
        exact Within.trans (.left (.self _)) hjoined

/-- The operands that are still to come are parts of the formula. -/
theorem within_pending_of_mem (h : (operator, operand) ∈ rest) :
    Within operand (pending sum term rest) := by
  induction rest generalizing sum term with
  | nil => simp at h
  | cons head rest ih =>
    obtain ⟨operator', operand'⟩ := head
    rcases Nat.lt_or_ge 1 operator'.precedence with ht | ht
    · rw [pending_upper ht]
      cases h with
      | head => exact Within.trans (.right (.self _)) (within_pending _ _ _).1
      | tail _ h => exact ih h
    · rw [pending_lower ht]
      cases h with
      | head => exact (within_pending _ _ _).1
      | tail _ h => exact ih h

end Pending

/-! ## The loop -/

/-- The state of an evaluation holds the values of these parts of a formula. -/
inductive Represents : Option (Formula × Operator) → Formula → Expr.Running → Prop
  | start {term : Formula} {value : Binary64} (hterm : term.eval = .ok value) :
      Represents none term { sum := none, term := value }
  | later {sum term : Formula} {operator : Operator} {total value : Binary64}
      (hsum : sum.eval = .ok total) (hterm : term.eval = .ok value) :
      Represents (some (sum, operator)) term { sum := some (total, operator), term := value }

section Loop

variable {sum : Option (Formula × Operator)} {term operand : Formula} {running : Expr.Running}

theorem Represents.term_eq (h : Represents sum term running) : term.eval = .ok running.term := by
  cases h <;> assumption

theorem Represents.yields_total (h : Represents sum term running) :
    Yields (joined sum term) running.total := by
  cases h with
  | start hterm => exact hterm
  | later hsum hterm => exact yields_operation _ hsum hterm

theorem Represents.extend (h : Represents sum term running) {term' : Formula} {value : Binary64}
    (hterm : term'.eval = .ok value) : Represents sum term' { running with term := value } := by
  cases h with
  | start _ => exact .start hterm
  | later hsum _ => exact .later hsum hterm

/-- **The loop goes through a chain as its formula is built.** -/
theorem yields_reduceRest {rest : List (Operator × Expr Binary64)}
    (ih : ∀ link ∈ rest, Yields link.2.toFormula link.2.reduce)
    (h : Represents sum term running) :
    Yields (pending sum term (Expr.toFormulaRest rest)) (Expr.reduceRest running rest) := by
  induction rest generalizing sum term running with
  | nil => exact h.yields_total
  | cons link rest ihr =>
    obtain ⟨operator, operand⟩ := link
    have ho := ih (operator, operand) (.head _)
    have ihRest : ∀ link ∈ rest, Yields link.2.toFormula link.2.reduce :=
      fun link hl => ih link (.tail _ hl)
    rw [Expr.toFormulaRest, Expr.reduceRest_cons]
    cases hv : operand.reduce with
    | error failure =>
      rw [hv] at ho
      exact HasFault.within ho (within_pending_of_mem (.head _))
    | ok value =>
      rw [hv] at ho
      rcases Nat.lt_or_ge 1 operator.precedence with ht | ht
      · rw [pending_upper ht]
        have hp := yields_operation operator h.term_eq ho
        simp only [Except.bind, Expr.Running.push_upper ht]
        cases ha : operator.apply running.term value with
        | error failure =>
          rw [ha] at hp
          exact HasFault.within hp (within_pending _ _ _).1
        | ok term' =>
          rw [ha] at hp
          exact ihr ihRest (h.extend hp)
      · rw [pending_lower ht]
        have hp := h.yields_total
        simp only [Except.bind, Expr.Running.push_lower ht]
        cases ha : running.total with
        | error failure =>
          rw [ha] at hp
          exact HasFault.within hp ((within_pending _ _ _).2 _ _ rfl)
        | ok total =>
          rw [ha] at hp
          exact ihr ihRest (.later hp ho)

end Loop

/-- **What evaluation answers is an outcome of the formula.** -/
theorem yields_reduce (e : Expr Binary64) : Yields e.toFormula e.reduce := by
  induction e using Expr.induction with
  | number value => rfl
  | negate inner ih =>
    rw [Expr.toFormula, Expr.reduce]
    cases hi : inner.reduce with
    | error failure =>
      rw [hi] at ih
      exact HasFault.within ih (.negate (.self _))
    | ok value =>
      rw [hi] at ih
      show (negate inner.toFormula).eval = _
      rw [eval, show inner.toFormula.eval = .ok value from ih]
      rfl
  | group inner ih => rwa [Expr.toFormula, Expr.reduce]
  | chain first rest ihf ihr =>
    rw [Expr.toFormula, ofChain_eq_pending, Expr.reduce_chain]
    cases hf : first.reduce with
    | error failure =>
      rw [hf] at ihf
      exact HasFault.within ihf (within_pending _ _ _).1
    | ok value =>
      rw [hf] at ihf
      exact yields_reduceRest ihr (.start ihf)

/-- Where an expression has no value, the numbers in it are the reason. -/
theorem isSyntax_of_reduce {e : Expr Binary64} (h : e.reduce = .error failure) :
    failure.isSyntax = false := by
  have hfault := yields_reduce e
  rw [h] at hfault
  exact HasFault.isSyntax_eq_false hfault

end Formula
end Calculator
