import Calculator.Proofs.Precedence
import Calculator.Proofs.RoundTrip
import Mathlib.Data.List.Forall2

/-!
# Which failure is reported

Where several operators of an expression fail, `Expr.reduce` and the passes need not report the same
failure.  Evaluation in one go applies an operator as soon as it knows both operands, and evaluates
the operands after it only then.  The passes finish all operands of a chain before they apply any
operator of it, and all of the upper tier before the lower one.  In `a*a+(1/0)` the one comes to the
product first, and the other to the division.

What both report is a failure of the formula that the expression stands for.  For evaluation in one
go this is `Formula.yields_reduce`.  A pass puts a value in the place of a part of the formula
(`Pass.simplifies`), and so brings no failure into it that was not there (`Simplifies.hasFault`).

* `evaluate_fails_iff_trace_fails` — tracing fails where evaluating does, and with the same error
  where all operators that fail do so in the same way.
-/

set_option autoImplicit false

namespace Calculator
namespace Formula

/-! ## Values in the place of parts -/

/-- The second formula is the first one with values in the place of some of its parts. -/
inductive Simplifies : Formula → Formula → Prop
  | refl (f : Formula) : Simplifies f f
  | value {f : Formula} {value : Binary64} (h : f.eval = .ok value) : Simplifies f (number value)
  | negate {inner inner' : Formula} (h : Simplifies inner inner') :
      Simplifies (negate inner) (negate inner')
  | operation {operator : Operator} {left left' right right' : Formula}
      (hleft : Simplifies left left') (hright : Simplifies right right') :
      Simplifies (operation operator left right) (operation operator left' right')

variable {f f' g : Formula} {failure : EvalError}

theorem Simplifies.eval_eq (h : Simplifies f g) : g.eval = f.eval := by
  induction h with
  | refl => rfl
  | value h => rw [h, eval]
  | negate _ ih => rw [eval, eval, ih]
  | operation _ _ ihleft ihright => rw [eval_operation, eval_operation, ihleft, ihright]

/-- Every part of the simpler formula was one, perhaps less simple, before. -/
theorem Simplifies.exists_within (h : Simplifies f g) {part : Formula} (hpart : Within part g) :
    ∃ part', Within part' f ∧ Simplifies part' part := by
  induction h with
  | refl => exact ⟨part, hpart, .refl _⟩
  | value h =>
    cases hpart with
    | self => exact ⟨_, .self _, .value h⟩
  | negate h ih =>
    cases hpart with
    | self => exact ⟨_, .self _, .negate h⟩
    | negate hpart =>
      obtain ⟨part', hw, hs⟩ := ih hpart
      exact ⟨part', .negate hw, hs⟩
  | operation hleft hright ihleft ihright =>
    cases hpart with
    | self => exact ⟨_, .self _, .operation hleft hright⟩
    | left hpart =>
      obtain ⟨part', hw, hs⟩ := ihleft hpart
      exact ⟨part', .left hw, hs⟩
    | right hpart =>
      obtain ⟨part', hw, hs⟩ := ihright hpart
      exact ⟨part', .right hw, hs⟩

/-- **An operator that fails in the simpler formula failed before.** -/
theorem Simplifies.hasFault (h : Simplifies f g) (hfault : g.HasFault failure) :
    f.HasFault failure := by
  obtain ⟨operator, left, right, a, b, hw, ha, hb, hf⟩ := hfault
  obtain ⟨part, hpart, hs⟩ := h.exists_within hw
  cases hs with
  | refl => exact ⟨operator, left, right, a, b, hpart, ha, hb, hf⟩
  | operation hleft hright =>
    exact ⟨operator, _, _, a, b, hpart, hleft.eval_eq ▸ ha, hright.eval_eq ▸ hb, hf⟩

/-! ## Values in a chain -/

section Chain

variable {sum : Option (Formula × Operator)} {term term' : Formula}
  {rest rest' : List (Operator × Formula)}

/-- Two links with the same operator, of which the second has the simpler operand. -/
def SimplifiesLink (link link' : Operator × Formula) : Prop :=
  link.1 = link'.1 ∧ Simplifies link.2 link'.2

theorem forall₂_simplifiesLink_refl (rest : List (Operator × Formula)) :
    List.Forall₂ SimplifiesLink rest rest :=
  List.forall₂_same.2 fun link _ => ⟨rfl, .refl link.2⟩

theorem simplifies_joined (sum : Option (Formula × Operator)) (h : Simplifies term term') :
    Simplifies (joined sum term) (joined sum term') := by
  cases sum with
  | none => exact h
  | some link => exact .operation (.refl _) h

/-- A chain is simpler if all that it is made of is simpler. -/
theorem simplifies_pending (hrest : List.Forall₂ SimplifiesLink rest rest') :
    ∀ {sum sum' : Option (Formula × Operator)} {term term' : Formula},
      (∀ {x y}, Simplifies x y → Simplifies (joined sum x) (joined sum' y)) →
      Simplifies term term' → Simplifies (pending sum term rest) (pending sum' term' rest') := by
  induction hrest with
  | nil => exact fun hsum hterm => hsum hterm
  | @cons link link' rest rest' hlink _ ih =>
    intro sum sum' term term' hsum hterm
    obtain ⟨operator, operand⟩ := link
    obtain ⟨operator', operand'⟩ := link'
    obtain ⟨rfl, hoperand⟩ : operator = operator' ∧ Simplifies operand operand' := hlink
    rcases Nat.lt_or_ge 1 operator.precedence with h | h
    · rw [pending_upper h, pending_upper h]
      exact ih hsum (.operation hterm hoperand)
    · rw [pending_lower h, pending_lower h]
      exact ih (fun hxy => .operation (hsum hterm) hxy) hoperand

/-- Before an operator of the lower tier it makes no difference whether the term has been joined to
the sum. -/
theorem pending_eq_of_lower (h : ∀ link ∈ rest, link.1.precedence ≤ 1) :
    pending sum term rest = pending none (joined sum term) rest := by
  cases rest with
  | nil => rfl
  | cons link rest =>
    obtain ⟨operator, operand⟩ := link
    have hlower := h _ (.head _)
    rw [pending_lower hlower, pending_lower hlower]
    rfl

end Chain

/-! ## Chains of numbers -/

/-- The links of a chain of numbers. -/
def numberLinks (rest : List (Operator × Binary64)) : List (Operator × Formula) :=
  rest.map fun link => (link.1, number link.2)

/-- The formula of a chain of numbers. -/
def ofNumbers (numbers : Binary64 × List (Operator × Binary64)) : Formula :=
  ofChain (number numbers.1) (numberLinks numbers.2)

/-- What stands before an operator can be taken into a sum if it is all of the lower tier. -/
theorem exists_sum {before : List (Binary64 × Operator)}
    (h : ∀ link ∈ before, link.2.precedence ≤ 1) :
    ∃ sum, ∀ operand after,
      ofNumbers (Expr.unwind before operand after) =
        pending sum (number operand) (numberLinks after) := by
  induction before with
  | nil => exact ⟨none, fun operand after => rfl⟩
  | cons link before ih =>
    obtain ⟨left, operator⟩ := link
    obtain ⟨sum, hsum⟩ := ih fun link hl => h link (.tail _ hl)
    refine ⟨some (joined sum (number left), operator), fun operand after => ?_⟩
    rw [Expr.unwind, hsum]
    exact pending_lower (h _ (.head _))

/-- **The operator that is next is the next operation of the formula.** -/
theorem exists_operation_of_isNext {before : List (Binary64 × Operator)} {operator : Operator}
    {after : List (Operator × Binary64)} (h : Expr.IsNext before operator after) :
    ∃ sum, ∀ left right,
      ofNumbers (Expr.unwind before left ((operator, right) :: after)) =
        pending sum (operation operator (number left) (number right)) (numberLinks after) ∧
      ∀ value, ofNumbers (Expr.unwind before value after) =
        pending sum (number value) (numberLinks after) := by
  cases h with
  | upper upper lower =>
    obtain ⟨sum, hsum⟩ := exists_sum lower
    refine ⟨sum, fun left right => ⟨?_, fun value => hsum value after⟩⟩
    rw [hsum]
    exact pending_upper upper
  | lower lower lowerAfter =>
    have hlinks : ∀ link ∈ numberLinks after, link.1.precedence ≤ 1 := by
      intro link hl
      obtain ⟨link', hl', rfl⟩ := List.mem_map.1 hl
      exact lowerAfter link' hl'
    refine ⟨none, fun left right => ⟨?_, fun value => rfl⟩⟩
    show pending none (number left) ((operator, number right) :: numberLinks after) = _
    rw [pending_lower lower, pending_eq_of_lower hlinks]
    rfl

end Formula

namespace Expr

open Formula (Simplifies SimplifiesLink numberLinks)

/-! ## Passes and formulas -/

variable {e next : Expr Binary64} {failure : EvalError}

theorem toFormulaRest_eq_map (rest : List (Operator × Expr Binary64)) :
    toFormulaRest rest = rest.map fun link => (link.1, link.2.toFormula) := by
  induction rest with
  | nil => rfl
  | cons link rest ih => rw [toFormulaRest, ih, List.map_cons]

theorem toFormulaRest_map_numberLink (rest : List (Operator × Binary64)) :
    toFormulaRest (rest.map numberLink) = numberLinks rest := by
  rw [toFormulaRest_eq_map, List.map_map, numberLinks]
  rfl

theorem toFormula_numberChain (numbers : Binary64 × List (Operator × Binary64)) :
    (numberChain numbers).toFormula = .ofNumbers numbers := by
  rw [numberChain, toFormula, toFormulaRest_map_numberLink]
  rfl

theorem toFormula_ofNumbers (numbers : Binary64 × List (Operator × Binary64)) :
    (ofNumbers numbers).toFormula = .ofNumbers numbers := by
  obtain ⟨first, rest⟩ := numbers
  cases rest with
  | nil => rfl
  | cons link rest => exact toFormula_numberChain (first, link :: rest)

theorem toFormula_chain (first : Expr Binary64) (rest : List (Operator × Expr Binary64)) :
    (chain first rest).toFormula = .pending none first.toFormula (toFormulaRest rest) := by
  rw [toFormula, Formula.ofChain_eq_pending]

/-- **A pass puts a value in the place of a part of the formula**, or leaves it as it is. -/
theorem Pass.simplifies (h : Pass e next) : Simplifies e.toFormula next.toFormula := by
  induction h with
  | groupNumber value => exact .refl _
  | groupFinished _ ih => exact ih
  | group _ _ ih => exact ih
  | negateNumber value => exact .value rfl
  | @negateFinished inner value _ ih =>
    refine .value ?_
    rw [toFormula, Formula.eval, ← ih.eval_eq]
    rfl
  | negate _ _ ih => exact .negate ih
  | first _ ih =>
    rw [toFormula_chain, toFormula_chain]
    exact Formula.simplifies_pending (Formula.forall₂_simplifiesLink_refl _)
      (Formula.simplifies_joined none) ih
  | @operand first done operator operand next rest _ ih =>
    rw [toFormula_chain, toFormula_chain]
    refine Formula.simplifies_pending ?_ (Formula.simplifies_joined none) (.refl _)
    rw [toFormulaRest_eq_map, toFormulaRest_eq_map, List.map_append, List.map_append]
    exact List.rel_append (Formula.forall₂_simplifiesLink_refl _)
      (.cons ⟨rfl, ih⟩ (Formula.forall₂_simplifiesLink_refl _))
  | lone value => exact .refl _
  | @apply before left operator right after value hnext h =>
    obtain ⟨sum, hsum⟩ := Formula.exists_operation_of_isNext hnext
    rw [toFormula_numberChain, toFormula_ofNumbers, (hsum left right).1, (hsum left right).2]
    exact Formula.simplifies_pending (Formula.forall₂_simplifiesLink_refl _)
      (Formula.simplifies_joined sum) (.value h)

/-- **Where a pass fails, an operator of the formula does.** -/
theorem Fault.hasFault (h : Fault e failure) : e.toFormula.HasFault failure := by
  induction h with
  | group _ ih => exact ih
  | negate _ ih => exact ih.within (.negate (.self _))
  | first _ ih =>
    rw [toFormula_chain]
    exact ih.within (Formula.within_pending _ _ _).1
  | @operand first done operator operand rest failure _ ih =>
    have hmem : (operator, operand.toFormula) ∈
        toFormulaRest (done.map numberLink ++ (operator, operand) :: rest) := by
      rw [toFormulaRest_eq_map, List.map_append]
      exact List.mem_append_right _ (.head _)
    rw [toFormula_chain]
    exact ih.within (Formula.within_pending_of_mem hmem)
  | @apply before left operator right after failure hnext h =>
    obtain ⟨sum, hsum⟩ := Formula.exists_operation_of_isNext hnext
    rw [toFormula_numberChain, (hsum left right).1]
    exact ⟨operator, _, _, left, right, (Formula.within_pending _ _ _).1, rfl, rfl, h⟩

/-- The failure that ends a run of passes is one of the formula at its beginning. -/
theorem hasFault_of_passes (h : e.passes.failure = some failure) :
    e.toFormula.HasFault failure := by
  induction e using passInduction with
  | number value =>
    rw [passes_number] at h
    cases h
  | failed e failure' hf =>
    rw [passes_eq_of_error hf] at h
    obtain rfl : failure' = failure := Option.some.inj h
    exact (fault_of_advance hf).hasFault
  | moved e next hm ih =>
    rw [passes_eq_of_moved hm] at h
    exact (pass_of_advance hm).simplifies.hasFault (ih h)

theorem trace_eq_error_iff : e.trace = .error failure ↔ e.passes.failure = some failure := by
  rw [trace]
  cases e.passes.failure <;> simp

theorem exists_trace_eq_error_iff (e : Expr Binary64) :
    (∃ failure, e.trace = .error failure) ↔ ∃ failure, e.reduce = .error failure := by
  have h := failure_passes_eq_none_iff e
  simp only [trace_eq_error_iff]
  cases hf : e.passes.failure with
  | none =>
    obtain ⟨value, hv⟩ := h.1 hf
    simp [hv]
  | some failure =>
    cases hr : e.reduce with
    | ok value => simp [hf, hr] at h
    | error failure' => simp

end Expr

/-! ## Texts -/

open Calculator.Expr

/-- Where operators of a formula fail, they all do so in the same way. -/
def Formula.FailsAlike (f : Formula) : Prop :=
  ∀ failure failure', f.HasFault failure → f.HasFault failure' → failure = failure'

theorem Formula.failsAlike_operation_number (operator : Operator) (a b : Binary64) :
    (operation operator (number a) (number b)).FailsAlike := by
  have happly : ∀ failure, (operation operator (number a) (number b)).HasFault failure →
      operator.apply a b = .error failure := by
    rintro failure ⟨_, _, _, x, y, hw, hx, hy, hf⟩
    cases hw with
    | self =>
      rwa [Except.ok.inj hx, Except.ok.inj hy]
    | left hw => cases hw
    | right hw => cases hw
  intro failure failure' h h'
  exact Except.error.inj ((happly failure h).symm.trans (happly failure' h'))

section Texts

variable {raw : String} {e : Expr Binary64} {failure : EvalError}

theorem evaluate_eq_error_of_parse (h : parse raw = .error failure) :
    evaluate raw = .error failure :=
  bind_eq_error_iff.2 (.inl h)

theorem trace_eq_error_of_parse (h : parse raw = .error failure) : trace raw = .error failure := by
  rcases bind_eq_error_iff.1 h with hn | ⟨normal, hn, hp⟩
  · exact bind_eq_error_iff.2 (.inl hn)
  · exact bind_eq_error_iff.2 (.inr ⟨normal, hn, bind_eq_error_iff.2 (.inl hp)⟩)

/-- A text that is parsed fails to be traced as its expression does. -/
theorem trace_eq_error_iff_of_parse (h : parse raw = .ok e) :
    trace raw = .error failure ↔ e.trace = .error failure := by
  obtain ⟨normal, hn, -⟩ := bind_eq_ok_iff.1 h
  rw [trace_eq_bind hn h, bind_eq_error_iff]
  simp [pure, Except.pure]

theorem evaluate_fails_iff_of_parse (hp : parse raw = .ok e) :
    (∃ failure, evaluate raw = .error failure) ↔ ∃ failure, trace raw = .error failure := by
  simp only [evaluate_eq_reduce hp, trace_eq_error_iff_of_parse hp, exists_trace_eq_error_iff]

theorem hasFault_of_evaluate (hp : parse raw = .ok e) (h : evaluate raw = .error failure) :
    e.toFormula.HasFault failure := by
  have hyields := Formula.yields_reduce e
  rwa [← evaluate_eq_reduce hp, h] at hyields

theorem hasFault_of_trace (hp : parse raw = .ok e) (h : trace raw = .error failure) :
    e.toFormula.HasFault failure :=
  hasFault_of_passes (trace_eq_error_iff.1 ((trace_eq_error_iff_of_parse hp).1 h))

/-- Where all failures are alike, there is no other to report. -/
theorem evaluate_eq_error_iff_trace (hp : parse raw = .ok e) (halike : e.toFormula.FailsAlike) :
    evaluate raw = .error failure ↔ trace raw = .error failure := by
  constructor
  · intro h
    obtain ⟨failure', h'⟩ := (evaluate_fails_iff_of_parse hp).1 ⟨failure, h⟩
    rwa [halike failure failure' (hasFault_of_evaluate hp h) (hasFault_of_trace hp h')]
  · intro h
    obtain ⟨failure', h'⟩ := (evaluate_fails_iff_of_parse hp).2 ⟨failure, h⟩
    rwa [halike failure failure' (hasFault_of_trace hp h) (hasFault_of_evaluate hp h')]

/-- A text that is its own normal form is read as it is. -/
theorem parse_ofList {normal : List Char} (h : Normal.validate normal = .ok normal) :
    parse (String.ofList normal) = Expr.parse normal := by
  rw [parse, normalize, String.toList_ofList, h]
  simp only [bind, Except.bind, Except.map, String.toList_ofList]

/-- Where reading fails or the first pass does, so does tracing. -/
theorem trace_eq_error_of_first
    (h : (parse raw >>= fun e => e.step.map Option.isSome) = .error failure) :
    trace raw = .error failure := by
  rcases bind_eq_error_iff.1 h with hp | ⟨e, hp, hs⟩
  · exact trace_eq_error_of_parse hp
  · have hstep := map_eq_error_iff.1 hs
    refine (trace_eq_error_iff_of_parse hp).2 (trace_eq_error_iff.2 ?_)
    rw [passes_eq_of_error (step_eq_error_iff.1 hstep)]

end Texts

/-- **Tracing a text fails where evaluating it fails.**  A text that is not parsed gives the same
error either way.  Of an expression both report the failure of an operator of its formula whose two
operands have values; so they report the same, unless operators fail in different ways. -/
theorem evaluate_fails_iff_trace_fails (raw : String) :
    ((∃ failure, evaluate raw = .error failure) ↔ ∃ failure, trace raw = .error failure) ∧
    (∀ failure, parse raw = .error failure →
      evaluate raw = .error failure ∧ trace raw = .error failure) ∧
    ∀ e, parse raw = .ok e →
      (∀ failure, evaluate raw = .error failure ∨ trace raw = .error failure →
        e.toFormula.HasFault failure) ∧
      (e.toFormula.FailsAlike →
        ∀ failure, evaluate raw = .error failure ↔ trace raw = .error failure) := by
  cases hp : parse raw with
  | error failure =>
    have hevaluate := evaluate_eq_error_of_parse hp
    have htrace := trace_eq_error_of_parse hp
    refine ⟨by simp [hevaluate, htrace], fun failure' h => ?_, fun e h => by cases h⟩
    cases h
    exact ⟨hevaluate, htrace⟩
  | ok e =>
    refine ⟨evaluate_fails_iff_of_parse hp, fun failure h => (by cases h), fun e' h => ?_⟩
    obtain rfl := Except.ok.inj h
    refine ⟨fun failure h => ?_, fun halike failure => evaluate_eq_error_iff_trace hp halike⟩
    exact h.elim (hasFault_of_evaluate hp) (hasFault_of_trace hp)

/-- There is one division in `0/0`, and both report it. -/
theorem evaluate_fails_iff_trace_fails_zero_divisor :
    parse "0/0" = .ok (binary (number (.ofBits 0)) .divide (number (.ofBits 0))) ∧
      evaluate "0/0" = .error .divisionByZero ∧ trace "0/0" = .error .divisionByZero := by
  have hp : parse "0/0" =
      .ok (binary (number (.ofBits 0)) .divide (number (.ofBits 0))) := by rfl
  have hevaluate : evaluate "0/0" = .error .divisionByZero := by
    rw [evaluate_eq_reduce hp]
    rfl
  obtain ⟨-, -, hparsed⟩ := evaluate_fails_iff_trace_fails "0/0"
  obtain ⟨-, halike⟩ := hparsed _ hp
  exact ⟨hp, hevaluate,
    (halike (Formula.failsAlike_operation_number _ _ _) .divisionByZero).1 hevaluate⟩

/-! ## Two failures -/

/-- The numeral of a number whose square is not finite. -/
def longNumeral : List Char := '2' :: List.replicate 154 '0'

/-- The text of a sum of a square that overflows and a division by zero. -/
def twoFailures : List Char := longNumeral ++ '*' :: longNumeral ++ ['+', '(', '1', '/', '0', ')']

/-- A text of two failures: evaluation comes to the product first, and a pass to the division. -/
theorem evaluate_twoFailures_ne_trace :
    evaluate (String.ofList twoFailures) = .error .overflow ∧
      trace (String.ofList twoFailures) = .error .divisionByZero ∧
      ¬ ∀ raw failure, evaluate raw = .error failure → trace raw = .error failure := by
  have hvalid : Normal.validate twoFailures = .ok twoFailures := by decide +kernel
  have hreduce : (Expr.parse twoFailures >>= Expr.reduce) = .error .overflow := by decide +kernel
  have hstep : (Expr.parse twoFailures >>= fun e => e.step.map Option.isSome) =
      .error .divisionByZero := by decide +kernel
  rw [← parse_ofList hvalid] at hreduce hstep
  have hevaluate : evaluate (String.ofList twoFailures) = .error .overflow := hreduce
  have htrace := trace_eq_error_of_first hstep
  refine ⟨hevaluate, htrace, fun h => ?_⟩
  rw [h _ _ hevaluate] at htrace
  cases htrace

end Calculator
