import Calculator.Expr.Numbers
import Calculator.Proofs.Run

/-!
# A pass changes one place

Written in one line, without parentheses and signs, an expression is its numbers with an operator
between any two of them.  A pass changes this line at one place (`ChangesOnePlace`): two numbers and
the operator between them become one number, or a number is negated, or nothing is to be seen of the
pass.  All that is to the left and to the right stays, and stays in its order.

The places are counted by what is to the left of them: an operator with as many operators to its
left as there are numbers to the left of its first number stands directly between two numbers.

* `Pass.changesOnePlace` and `Fault.failsAtOnePlace` — every rule of a pass changes one place, by
  induction on the rules.  The rule that goes into an operand leaves alone what is on both sides of
  it (`ChangesOnePlace.within`).
* Signs add up along the way, but two of them are none: a number that a pass leaves is negated at
  most once (`ChangesOnePlace.negate`).
* `step_numberChain` — where all operands are numbers the pass can be told by an index alone: find
  the operator that is next, take it and the number after it out of the two lists, and put the
  lists together again.
-/

set_option autoImplicit false

namespace Calculator
namespace Expr

/-- The numbers and operators of one line are those of another, but for one place. -/
inductive ChangesOnePlace :
    List Binary64 → List Operator → List Binary64 → List Operator → Prop
  | same (numbers : List Binary64) (operators : List Operator) :
      ChangesOnePlace numbers operators numbers operators
  | negated (before : List Binary64) (value : Binary64) (after : List Binary64)
      (operators : List Operator) :
      ChangesOnePlace (before ++ value :: after) operators (before ++ -value :: after) operators
  | applied {before after : List Binary64} {left right value result : Binary64}
      {operatorsBefore operatorsAfter : List Operator} {operator : Operator}
      (place : operatorsBefore.length = before.length) (h : operator.apply left right = .ok value)
      (sign : result = value ∨ result = -value) :
      ChangesOnePlace (before ++ left :: right :: after)
        (operatorsBefore ++ operator :: operatorsAfter)
        (before ++ result :: after) (operatorsBefore ++ operatorsAfter)

/-- An operator of a line fails on the two numbers beside it. -/
inductive FailsAtOnePlace : List Binary64 → List Operator → EvalError → Prop
  | intro {before after : List Binary64} {left right : Binary64}
      {operatorsBefore operatorsAfter : List Operator} {operator : Operator} {failure : EvalError}
      (place : operatorsBefore.length = before.length)
      (h : operator.apply left right = .error failure) :
      FailsAtOnePlace (before ++ left :: right :: after)
        (operatorsBefore ++ operator :: operatorsAfter) failure

section Lines

variable {numbers numbers' : List Binary64} {operators operators' : List Operator}

/-- What is on both sides of a line makes no difference to the place in it. -/
theorem ChangesOnePlace.within (h : ChangesOnePlace numbers operators numbers' operators')
    (before : List Binary64) (operatorsBefore : List Operator)
    (place : operatorsBefore.length = before.length) (after : List Binary64)
    (operatorsAfter : List Operator) :
    ChangesOnePlace (before ++ (numbers ++ after))
      (operatorsBefore ++ (operators ++ operatorsAfter)) (before ++ (numbers' ++ after))
      (operatorsBefore ++ (operators' ++ operatorsAfter)) := by
  cases h with
  | same => exact .same _ _
  | negated left value right =>
    simpa using negated (before ++ left) value (right ++ after)
      (operatorsBefore ++ (operators ++ operatorsAfter))
  | @applied left right _ _ _ _ leftOperators rightOperators _ place' h sign =>
    have hplace : (operatorsBefore ++ leftOperators).length = (before ++ left).length := by
      rw [List.length_append, List.length_append, place, place']
    have := @applied (before ++ left) (right ++ after) _ _ _ _ (operatorsBefore ++ leftOperators)
      (rightOperators ++ operatorsAfter) _ hplace h sign
    simpa using this

theorem FailsAtOnePlace.within {failure : EvalError} (h : FailsAtOnePlace numbers operators failure)
    (before : List Binary64) (operatorsBefore : List Operator)
    (place : operatorsBefore.length = before.length) (after : List Binary64)
    (operatorsAfter : List Operator) :
    FailsAtOnePlace (before ++ (numbers ++ after))
      (operatorsBefore ++ (operators ++ operatorsAfter)) failure := by
  obtain @⟨left, right, _, _, leftOperators, rightOperators, _, _, place', h⟩ := h
  have hplace : (operatorsBefore ++ leftOperators).length = (before ++ left).length := by
    rw [List.length_append, List.length_append, place, place']
  have := @FailsAtOnePlace.intro (before ++ left) (right ++ after) _ _
    (operatorsBefore ++ leftOperators) (rightOperators ++ operatorsAfter) _ _ hplace h
  simpa using this

/-- **A single number may as well be negated**: if it has been already, that takes the sign off. -/
theorem ChangesOnePlace.negate {value : Binary64}
    (h : ChangesOnePlace numbers operators [value] []) :
    ChangesOnePlace numbers operators [-value] [] := by
  generalize hnumbers : [value] = numbers', hoperators : ([] : List Operator) = operators' at h
  cases h with
  | same =>
    rw [← hnumbers, ← hoperators]
    exact .negated [] value [] []
  | negated before value' after =>
    obtain ⟨rfl, rfl, rfl⟩ : before = [] ∧ -value' = value ∧ after = [] := by
      simpa [List.append_eq_singleton_iff] using hnumbers.symm
    rw [← hoperators, Binary64.neg_neg]
    exact .same _ _
  | @applied before after left right value' result operatorsBefore operatorsAfter _ place h sign =>
    obtain ⟨rfl, rfl, rfl⟩ : before = [] ∧ result = value ∧ after = [] := by
      simpa [List.append_eq_singleton_iff] using hnumbers.symm
    obtain ⟨rfl, rfl⟩ := List.append_eq_nil_iff.1 hoperators.symm
    refine @ChangesOnePlace.applied [] [] _ _ _ _ [] [] _ rfl h ?_
    rcases sign with rfl | rfl
    · exact .inr rfl
    · exact .inl (Binary64.neg_neg _)

/-- A line of finite numbers is changed to one of finite numbers. -/
theorem ChangesOnePlace.isFinite (h : ChangesOnePlace numbers operators numbers' operators')
    (hf : ∀ x ∈ numbers, x.IsFinite) : ∀ x ∈ numbers', x.IsFinite := by
  cases h with
  | same => exact hf
  | negated before value after =>
    simp only [List.forall_mem_append, List.forall_mem_cons, Binary64.isFinite_neg] at hf ⊢
    exact hf
  | @applied before after left right value result _ _ _ place h sign =>
    have hvalue := Operator.isFinite_of_apply h
    have hresult : result.IsFinite := by
      rcases sign with rfl | rfl
      · exact hvalue
      · exact (Binary64.isFinite_neg _).2 hvalue
    simp only [List.forall_mem_append, List.forall_mem_cons] at hf ⊢
    exact ⟨hf.1, hresult, hf.2.2.2⟩

end Lines

/-! ## Chains of numbers -/

theorem numbersRest_map_numberLink (rest : List (Operator × Binary64)) :
    numbersRest (rest.map numberLink) = rest.map Prod.snd := by
  induction rest with
  | nil => rfl
  | cons link rest ih => rw [List.map_cons, numberLink, numbersRest, ih]; rfl

theorem operatorsRest_map_numberLink (rest : List (Operator × Binary64)) :
    operatorsRest (rest.map numberLink) = rest.map Prod.fst := by
  induction rest with
  | nil => rfl
  | cons link rest ih => rw [List.map_cons, numberLink, operatorsRest, ih]; rfl

theorem numbers_numberChain (numbers : Binary64 × List (Operator × Binary64)) :
    (numberChain numbers).numbers = numbers.1 :: numbers.2.map Prod.snd := by
  rw [numberChain, Expr.numbers, numbersRest_map_numberLink]
  rfl

theorem operators_numberChain (numbers : Binary64 × List (Operator × Binary64)) :
    (numberChain numbers).operators = numbers.2.map Prod.fst := by
  rw [numberChain, operators, operatorsRest_map_numberLink]
  rfl

theorem numbers_unwind (before : List (Binary64 × Operator)) (operand : Binary64)
    (rest : List (Operator × Binary64)) :
    (numberChain (unwind before operand rest)).numbers =
      (before.map Prod.fst).reverse ++ operand :: rest.map Prod.snd := by
  induction before generalizing operand rest with
  | nil => exact numbers_numberChain (operand, rest)
  | cons link before ih =>
    rw [unwind, ih, List.map_cons, List.map_cons, List.reverse_cons, List.append_assoc]
    rfl

theorem operators_unwind (before : List (Binary64 × Operator)) (operand : Binary64)
    (rest : List (Operator × Binary64)) :
    (numberChain (unwind before operand rest)).operators =
      (before.map Prod.snd).reverse ++ rest.map Prod.fst := by
  induction before generalizing operand rest with
  | nil => exact operators_numberChain (operand, rest)
  | cons link before ih =>
    rw [unwind, ih, List.map_cons, List.map_cons, List.reverse_cons, List.append_assoc]
    rfl

theorem numbers_ofNumbers (numbers : Binary64 × List (Operator × Binary64)) :
    (ofNumbers numbers).numbers = (numberChain numbers).numbers := by
  rw [ofNumbers, numbers_ofChain]
  rfl

theorem operators_ofNumbers (numbers : Binary64 × List (Operator × Binary64)) :
    (ofNumbers numbers).operators = (numberChain numbers).operators := by
  rw [ofNumbers, operators_ofChain]
  rfl

/-! ## The place of the operator that is next -/

/-- The place of the operator that is next: that of the first of the upper tier, or else the place
of the first of all. -/
def nextPlace (operators : List Operator) : Nat :=
  (operators.findIdx? fun operator => 1 < operator.precedence).getD 0

/-- The chain of the numbers and the operators of a line, if there is a number. -/
def ofLine? (numbers : List Binary64) (operators : List Operator) : Option (Expr Binary64) :=
  match numbers with
  | [] => none
  | first :: numbers => some (ofNumbers (first, operators.zip numbers))

/-- Applies the operator at a place of a line.  The result stands in the place of the number to its
left, and the operator and the number to its right are taken out.  If there is no operator at the
place, the first number is all. -/
def applyAt (place : Nat) (numbers : List Binary64) (operators : List Operator) :
    Except EvalError (Option (Expr Binary64)) :=
  match operators[place]?, numbers[place]?, numbers[place + 1]? with
  | some operator, some left, some right =>
    (operator.apply left right).map fun value =>
      ofLine? ((numbers.set place value).eraseIdx (place + 1)) (operators.eraseIdx place)
  | _, _, _ => .ok (numbers.head?.map number)

section Places

variable {before : List (Binary64 × Operator)} {operator : Operator}
  {after : List (Operator × Binary64)}

theorem nextPlace_eq (h : IsNext before operator after) :
    nextPlace ((before.map Prod.snd).reverse ++ operator :: after.map Prod.fst) =
      before.length := by
  rw [nextPlace, List.findIdx?_append, List.findIdx?_cons]
  cases h with
  | upper upper lower =>
    have hbefore : (before.map Prod.snd).reverse.findIdx? (1 < ·.precedence) = none := by
      rw [List.findIdx?_eq_none_iff]
      intro operator hmem
      obtain ⟨link, hlink, rfl⟩ := List.mem_map.1 (List.mem_reverse.1 hmem)
      exact decide_eq_false (Nat.not_lt.2 (lower link hlink))
    rw [hbefore, if_pos (decide_eq_true upper)]
    simp
  | lower lower lowerAfter =>
    have hafter : (after.map Prod.fst).findIdx? (1 < ·.precedence) = none := by
      rw [List.findIdx?_eq_none_iff]
      intro operator hmem
      obtain ⟨link, hlink, rfl⟩ := List.mem_map.1 hmem
      exact decide_eq_false (Nat.not_lt.2 (lowerAfter link hlink))
    rw [hafter, if_neg (by simpa using lower)]
    rfl

/-- A chain that is held open at an operand is a line with this operand in it. -/
theorem ofLine?_unwind (value : Binary64) :
    ofLine? ((before.map Prod.fst).reverse ++ value :: after.map Prod.snd)
      ((before.map Prod.snd).reverse ++ after.map Prod.fst) =
        some (ofNumbers (unwind before value after)) := by
  rw [← numbers_unwind, ← operators_unwind, numbers_numberChain, operators_numberChain, ofLine?,
    ← List.zip_of_prod rfl rfl]

theorem applyAt_append {numbers numbers' : List Binary64} {operators operators' : List Operator}
    {place : Nat} (hnumbers : numbers.length = place) (hoperators : operators.length = place)
    (left right : Binary64) :
    applyAt place (numbers ++ left :: right :: numbers') (operators ++ operator :: operators') =
      (operator.apply left right).map fun value =>
        ofLine? (numbers ++ value :: numbers') (operators ++ operators') := by
  subst hnumbers
  have hle := Nat.le_refl numbers.length
  have hnext := Nat.le_add_right numbers.length 1
  have hoperator : (operators ++ operator :: operators')[numbers.length]? = some operator := by
    rw [← hoperators, List.getElem?_append_right (Nat.le_refl _), Nat.sub_self]
    rfl
  have hleft : (numbers ++ left :: right :: numbers')[numbers.length]? = some left := by
    rw [List.getElem?_append_right hle, Nat.sub_self]
    rfl
  have hright : (numbers ++ left :: right :: numbers')[numbers.length + 1]? = some right := by
    rw [List.getElem?_append_right hnext, Nat.add_sub_cancel_left]
    rfl
  have herase : (operators ++ operator :: operators').eraseIdx numbers.length =
      operators ++ operators' := by
    rw [← hoperators, List.eraseIdx_append_of_length_le (Nat.le_refl _), Nat.sub_self]
    rfl
  simp only [applyAt, hoperator, hleft, hright, herase, List.set_append_right _ _ hle,
    Nat.sub_self, List.set_cons_zero, List.eraseIdx_append_of_length_le hnext,
    Nat.add_sub_cancel_left]
  rfl

theorem advanceRest_map_numberLink (first : Binary64) (done rest : List (Operator × Binary64)) :
    advanceRest first done (rest.map numberLink) = applyNext first (done.reverse ++ rest) := by
  induction rest generalizing done with
  | nil => rw [List.map_nil, advanceRest, List.append_nil]
  | cons link rest ih =>
    have hfinished : advance (number link.2) = .ok (.finished link.2) := by rw [advance]
    rw [List.map_cons, numberLink, advanceRest_of_finished hfinished, ih, List.reverse_cons,
      List.append_assoc]
    rfl

/-- **A chain of numbers is stepped at one place**, by taking the operator there and the number
after it out of the line. -/
theorem step_numberChain (numbers : Binary64 × List (Operator × Binary64)) :
    (numberChain numbers).step = applyAt (nextPlace (numberChain numbers).operators)
      (numberChain numbers).numbers (numberChain numbers).operators := by
  obtain ⟨first, rest⟩ := numbers
  have hfinished : advance (number first) = .ok (.finished first) := by rw [advance]
  have hadvance : advance (numberChain (first, rest)) = (applyNext first rest).map .moved := by
    rw [numberChain, advance_chain_of_finished hfinished, advanceRest_map_numberLink]
    rfl
  rw [step, hadvance]
  cases rest with
  | nil => rfl
  | cons link rest =>
    obtain ⟨before, left, operator, right, after, hu, hnext, happly⟩ :=
      applyNext_eq first (List.cons_ne_nil link rest)
    rw [happly, ← hu, numbers_unwind, operators_unwind, List.map_cons, List.map_cons,
      nextPlace_eq hnext, applyAt_append (by simp) (by simp)]
    simp only [ofLine?_unwind]
    cases operator.apply left right <;> rfl

end Places

/-! ## The rules -/

variable {e next : Expr Binary64} {failure : EvalError}

/-- **A pass changes one place.** -/
theorem Pass.changesOnePlace (h : Pass e next) :
    ChangesOnePlace e.numbers e.operators next.numbers next.operators := by
  induction h with
  | groupNumber => exact .same _ _
  | groupFinished _ ih => exact ih
  | group _ _ ih => exact ih
  | negateNumber value => exact .negated [] value [] []
  | negateFinished _ ih => exact ih.negate
  | negate _ _ ih => exact ih
  | @first first next rest _ ih =>
    exact ih.within [] [] rfl (numbersRest rest) (operatorsRest rest)
  | @operand first done operator operand next rest _ ih =>
    have := ih.within (first :: done.map Prod.snd) (done.map Prod.fst ++ [operator]) (by simp)
      (numbersRest rest) (operatorsRest rest)
    simpa [numbers, operators, numbersRest_append, operatorsRest_append, numbersRest, operatorsRest,
      numbersRest_map_numberLink, operatorsRest_map_numberLink] using this
  | lone => exact .same _ _
  | @apply before left operator right after value _ h =>
    rw [numbers_ofNumbers, operators_ofNumbers, numbers_unwind, operators_unwind, numbers_unwind,
      operators_unwind]
    exact .applied (by simp) h (.inl rfl)

/-- **A pass fails at one place.** -/
theorem Fault.failsAtOnePlace (h : Fault e failure) :
    FailsAtOnePlace e.numbers e.operators failure := by
  induction h with
  | group _ ih => exact ih
  | negate _ ih => exact ih
  | @first first rest failure _ ih =>
    exact ih.within [] [] rfl (numbersRest rest) (operatorsRest rest)
  | @operand first done operator operand rest failure _ ih =>
    have := ih.within (first :: done.map Prod.snd) (done.map Prod.fst ++ [operator]) (by simp)
      (numbersRest rest) (operatorsRest rest)
    simpa [numbers, operators, numbersRest_append, operatorsRest_append, numbersRest, operatorsRest,
      numbersRest_map_numberLink, operatorsRest_map_numberLink] using this
  | apply _ h =>
    rw [numbers_unwind, operators_unwind]
    exact .intro (by simp) h

/-! ## The search for a pass -/

/-- **A step changes one place only.**  In the line of numbers and operators it leaves everything as
it was, or negates one number, or puts the result of one operator, negated or not, in the place of
its two operands; and where it fails, it is because one operator fails on its two operands. -/
theorem step_changesOnePlace (e : Expr Binary64) :
    (∀ next, e.step = .ok (some next) →
      ChangesOnePlace e.numbers e.operators next.numbers next.operators) ∧
    ∀ failure, e.step = .error failure → FailsAtOnePlace e.numbers e.operators failure :=
  ⟨fun _ h => (pass_of_step h).changesOnePlace,
    fun _ h => (fault_of_advance (step_eq_error_iff.1 h)).failsAtOnePlace⟩

/-- In `1*-(1+2)` the sum is computed and negated in one step; `0/0` fails. -/
theorem step_changesOnePlace_negated_sum :
    (binary (number (.ofBits 0x3FF0000000000000)) .multiply
        (negate (group (binary (number (.ofBits 0x3FF0000000000000)) .add
          (number (.ofBits 0x4000000000000000)))))).step =
        .ok (some (binary (number (.ofBits 0x3FF0000000000000)) .multiply
          (number (.ofBits 0xC008000000000000)))) ∧
      ChangesOnePlace [.ofBits 0x3FF0000000000000, .ofBits 0x3FF0000000000000,
        .ofBits 0x4000000000000000] [.multiply, .add]
        [.ofBits 0x3FF0000000000000, .ofBits 0xC008000000000000] [.multiply] ∧
      (binary (number (.ofBits 0)) .divide (number (.ofBits 0))).step = .error .divisionByZero ∧
      FailsAtOnePlace [.ofBits 0, .ofBits 0] [.divide] .divisionByZero := by
  have hstep : (binary (number (.ofBits 0x3FF0000000000000)) .multiply
      (negate (group (binary (number (.ofBits 0x3FF0000000000000)) .add
        (number (.ofBits 0x4000000000000000)))))).step =
      .ok (some (binary (number (.ofBits 0x3FF0000000000000)) .multiply
        (number (.ofBits 0xC008000000000000)))) := by rfl
  have hfail : (binary (number (.ofBits 0)) .divide (number (.ofBits 0))).step =
      .error .divisionByZero := by rfl
  exact ⟨hstep, (step_changesOnePlace _).1 _ hstep, hfail, (step_changesOnePlace _).2 _ hfail⟩

end Expr
end Calculator
