import Calculator.Expr.PassCount

/-!
# The rules of a pass

`Expr.advance` says how the next pass is found.  This file says what it can be, as rules: which
expression one pass makes of which (`Pass`), and from which expression a pass fails (`Fault`).
There is one rule for each place at which a pass can happen, so what every pass preserves is an
induction on these rules and never looks into the search.

The places are the same for both relations.  Inside parentheses, behind a minus sign and in an
operand the rules go on; at a chain of numbers they end, with the operator that is next in order
(`IsNext`).

* `obeys_advance` — every answer of the search for a pass obeys the rules.
-/

set_option autoImplicit false

namespace Calculator
namespace Expr

/-! ## The search along a chain -/

section Search

variable {first operand next : Expr Binary64} {operator : Operator} {value : Binary64}
  {failure : EvalError} {done : List (Operator × Binary64)}
  {rest : List (Operator × Expr Binary64)}

theorem advance_chain_of_error (h : advance first = .error failure) :
    advance (chain first rest) = .error failure := by
  rw [advance, h]
  rfl

theorem advance_chain_of_moved (h : advance first = .ok (.moved next)) :
    advance (chain first rest) = .ok (.moved (chain next rest)) := by
  rw [advance, h]
  rfl

theorem advance_chain_of_finished (h : advance first = .ok (.finished value)) :
    advance (chain first rest) = (advanceRest value [] rest).map .moved := by
  rw [advance, h]
  rfl

theorem advanceRest_of_error (h : advance operand = .error failure) :
    advanceRest value done ((operator, operand) :: rest) = .error failure := by
  rw [advanceRest, h]
  rfl

theorem advanceRest_of_moved (h : advance operand = .ok (.moved next)) :
    advanceRest value done ((operator, operand) :: rest) =
      .ok (chain (number value)
        (done.reverse.map numberLink ++ (operator, next) :: rest)) := by
  rw [advanceRest, h, List.map_reverse, ← List.reverseAux_eq]
  rfl

theorem advanceRest_of_finished {value' : Binary64} (h : advance operand = .ok (.finished value')) :
    advanceRest value done ((operator, operand) :: rest) =
      advanceRest value ((operator, value') :: done) rest := by
  rw [advanceRest, h]
  rfl

end Search

/-! ## The operator that is next -/

/-- A chain of numbers, whether it has operators or not. -/
def numberChain (numbers : Binary64 × List (Operator × Binary64)) : Expr Binary64 :=
  chain (number numbers.1) (numbers.2.map numberLink)

/-- What a chain of numbers becomes when it is built anew: a single number is no chain. -/
def ofNumbers (numbers : Binary64 × List (Operator × Binary64)) : Expr Binary64 :=
  ofChain (number numbers.1) (numbers.2.map numberLink)

/-- In a chain of numbers the operator between `before` and `after` is applied next: it is the
first of the upper tier, or it is the first of all and no other is of the upper tier. -/
inductive IsNext :
    List (Binary64 × Operator) → Operator → List (Operator × Binary64) → Prop
  | upper {before : List (Binary64 × Operator)} {operator : Operator}
      {after : List (Operator × Binary64)} (upper : 1 < operator.precedence)
      (lower : ∀ link ∈ before, link.2.precedence ≤ 1) : IsNext before operator after
  | lower {operator : Operator} {after : List (Operator × Binary64)}
      (lower : operator.precedence ≤ 1) (lowerAfter : ∀ link ∈ after, link.1.precedence ≤ 1) :
      IsNext [] operator after

theorem precedence_pos (operator : Operator) : 1 ≤ operator.precedence := by
  cases operator <;> decide

theorem precedence_le_two (operator : Operator) : operator.precedence ≤ 2 := by
  cases operator <;> decide

theorem precedence_le_foldl {rest : List (Operator × Binary64)} {link : Operator × Binary64}
    (h : link ∈ rest) (tier : Nat) :
    link.1.precedence ≤ rest.foldl (fun tier link => max tier link.1.precedence) tier := by
  induction rest generalizing tier with
  | nil => simp at h
  | cons head rest ih =>
    rcases List.mem_cons.1 h with rfl | h
    · exact Nat.le_trans (Nat.le_max_right _ _) (le_highestTier_foldl _ _)
    · exact ih h _

theorem precedence_le_highestTier {rest : List (Operator × Binary64)}
    {link : Operator × Binary64} (h : link ∈ rest) : link.1.precedence ≤ highestTier rest :=
  precedence_le_foldl h 0

/-- The search for the first chosen operator ends at one, and has passed by none. -/
theorem applyFirst_eq (chosen : Operator → Bool) {rest : List (Operator × Binary64)}
    (h : ∃ link ∈ rest, chosen link.1 = true) (before : List (Binary64 × Operator))
    (left : Binary64) :
    ∃ before' left' operator right after,
      unwind before' left' ((operator, right) :: after) = unwind before left rest ∧
      chosen operator = true ∧ (∀ link ∈ before', link ∈ before ∨ chosen link.2 = false) ∧
      applyFirst chosen before left rest =
        (operator.apply left' right).map fun value => unwind before' value after := by
  induction rest generalizing before left with
  | nil => simp at h
  | cons link rest ih =>
    obtain ⟨operator, right⟩ := link
    by_cases hc : chosen operator = true
    · exact ⟨before, left, operator, right, rest, rfl, hc, fun _ hl => .inl hl, by
        rw [applyFirst, if_pos hc]⟩
    · have h' : ∃ link ∈ rest, chosen link.1 = true := by simpa [hc] using h
      obtain ⟨before', left', operator', right', after, hu, hch, hb, ha⟩ :=
        ih h' ((left, operator) :: before) right
      refine ⟨before', left', operator', right', after, hu, hch, fun link hl => ?_, by
        rw [applyFirst, if_neg hc, ha]⟩
      rcases hb link hl with hm | hf
      · rcases List.mem_cons.1 hm with rfl | hm
        · exact .inr (by simpa using hc)
        · exact .inl hm
      · exact .inr hf

/-- **A chain of numbers is rewritten at the operator that is next.** -/
theorem applyNext_eq (first : Binary64) {rest : List (Operator × Binary64)} (h : rest ≠ []) :
    ∃ before left operator right after,
      unwind before left ((operator, right) :: after) = (first, rest) ∧
      IsNext before operator after ∧
      applyNext first rest =
        (operator.apply left right).map fun value => ofNumbers (unwind before value after) := by
  obtain ⟨before, left, operator, right, after, hu, hc, hb, ha⟩ :=
    applyFirst_eq (fun operator => highestTier rest ≤ operator.precedence)
      (exists_highestTier h) [] first
  simp only [decide_eq_true_eq, decide_eq_false_iff_not, List.not_mem_nil, false_or] at hc hb
  have h2 := precedence_le_two operator
  refine ⟨before, left, operator, right, after, hu, ?_, ?_⟩
  · rcases Nat.lt_or_ge 1 (highestTier rest) with htier | htier
    · exact .upper (by omega) fun link hl => by have := hb link hl; omega
    · cases before with
      | nil =>
        have hrest : (operator, right) :: after = rest := congrArg Prod.snd hu
        have hle : ∀ link ∈ (operator, right) :: after, link.1.precedence ≤ 1 := fun link hl =>
          Nat.le_trans (precedence_le_highestTier (hrest ▸ hl)) htier
        exact .lower (hle _ (.head _)) fun link hl => hle link (.tail _ hl)
      | cons link before =>
        have h1 := precedence_pos link.2
        have h3 := hb link (.head _)
        omega
  · rw [applyNext, ha]
    cases operator.apply left right <;> rfl

/-! ## The rules -/

/-- One pass makes the second expression of the first. -/
inductive Pass : Expr Binary64 → Expr Binary64 → Prop
  | groupNumber (value : Binary64) : Pass (group (number value)) (number value)
  | groupFinished {inner : Expr Binary64} {value : Binary64} (h : Pass inner (number value)) :
      Pass (group inner) (number value)
  | group {inner next : Expr Binary64} (h : Pass inner next) (unfinished : next.asNumber? = none) :
      Pass (group inner) (group next)
  | negateNumber (value : Binary64) : Pass (negate (number value)) (number (-value))
  | negateFinished {inner : Expr Binary64} {value : Binary64} (h : Pass inner (number value)) :
      Pass (negate inner) (number (-value))
  | negate {inner next : Expr Binary64} (h : Pass inner next)
      (unfinished : next.asNumber? = none) : Pass (negate inner) (negate next)
  | first {first next : Expr Binary64} {rest : List (Operator × Expr Binary64)}
      (h : Pass first next) : Pass (chain first rest) (chain next rest)
  | operand {first : Binary64} {done : List (Operator × Binary64)} {operator : Operator}
      {operand next : Expr Binary64} {rest : List (Operator × Expr Binary64)}
      (h : Pass operand next) :
      Pass (chain (number first) (done.map numberLink ++ (operator, operand) :: rest))
        (chain (number first) (done.map numberLink ++ (operator, next) :: rest))
  | lone (value : Binary64) : Pass (numberChain (value, [])) (number value)
  | apply {before : List (Binary64 × Operator)} {left : Binary64} {operator : Operator}
      {right : Binary64} {after : List (Operator × Binary64)} {value : Binary64}
      (next : IsNext before operator after) (h : operator.apply left right = .ok value) :
      Pass (numberChain (unwind before left ((operator, right) :: after)))
        (ofNumbers (unwind before value after))

/-- A pass from the expression fails. -/
inductive Fault : Expr Binary64 → EvalError → Prop
  | group {inner : Expr Binary64} {failure : EvalError} (h : Fault inner failure) :
      Fault (group inner) failure
  | negate {inner : Expr Binary64} {failure : EvalError} (h : Fault inner failure) :
      Fault (negate inner) failure
  | first {first : Expr Binary64} {rest : List (Operator × Expr Binary64)} {failure : EvalError}
      (h : Fault first failure) : Fault (chain first rest) failure
  | operand {first : Binary64} {done : List (Operator × Binary64)} {operator : Operator}
      {operand : Expr Binary64} {rest : List (Operator × Expr Binary64)} {failure : EvalError}
      (h : Fault operand failure) :
      Fault (chain (number first) (done.map numberLink ++ (operator, operand) :: rest)) failure
  | apply {before : List (Binary64 × Operator)} {left : Binary64} {operator : Operator}
      {right : Binary64} {after : List (Operator × Binary64)} {failure : EvalError}
      (next : IsNext before operator after) (h : operator.apply left right = .error failure) :
      Fault (numberChain (unwind before left ((operator, right) :: after))) failure

/-- What a search for a pass may answer. -/
def Obeys (e : Expr Binary64) : Except EvalError Progress → Prop
  | .ok (.finished value) => e = number value
  | .ok (.moved next) => Pass e next
  | .error failure => Fault e failure

theorem obeys_group {inner : Expr Binary64} {answer : Except EvalError Progress}
    (h : inner.Obeys answer) : (group inner).Obeys (answer.map Progress.group) := by
  match answer, h with
  | .ok (.finished value), h => exact h ▸ .groupNumber value
  | .ok (.moved (number value)), h => exact Pass.groupFinished h
  | .ok (.moved (.negate _)), h => exact Pass.group h rfl
  | .ok (.moved (.group _)), h => exact Pass.group h rfl
  | .ok (.moved (chain _ _)), h => exact Pass.group h rfl
  | .error failure, h => exact Fault.group h

theorem obeys_negate {inner : Expr Binary64} {answer : Except EvalError Progress}
    (h : inner.Obeys answer) : (negate inner).Obeys (answer.map Progress.negate) := by
  match answer, h with
  | .ok (.finished value), h => exact h ▸ .negateNumber value
  | .ok (.moved (number value)), h => exact Pass.negateFinished h
  | .ok (.moved (.negate _)), h => exact Pass.negate h rfl
  | .ok (.moved (.group _)), h => exact Pass.negate h rfl
  | .ok (.moved (chain _ _)), h => exact Pass.negate h rfl
  | .error failure, h => exact Fault.negate h

theorem obeys_applyNext (first : Binary64) (rest : List (Operator × Binary64)) :
    (numberChain (first, rest)).Obeys ((applyNext first rest).map .moved) := by
  cases rest with
  | nil => exact .lone first
  | cons link rest =>
    obtain ⟨before, left, operator, right, after, hu, hn, ha⟩ :=
      applyNext_eq first (List.cons_ne_nil link rest)
    rw [ha, ← hu]
    cases h : operator.apply left right with
    | ok value => exact .apply hn h
    | error failure => exact .apply hn h

theorem obeys_advanceRest {rest : List (Operator × Expr Binary64)}
    (ih : ∀ link ∈ rest, link.2.Obeys (advance link.2)) (first : Binary64)
    (done : List (Operator × Binary64)) :
    (chain (number first) (done.reverse.map numberLink ++ rest)).Obeys
      ((advanceRest first done rest).map .moved) := by
  induction rest generalizing done with
  | nil => simpa [advanceRest, numberChain] using obeys_applyNext first done.reverse
  | cons link rest ihr =>
    obtain ⟨operator, operand⟩ := link
    have ho := ih (operator, operand) (.head _)
    cases ha : advance operand with
    | error failure =>
      rw [ha] at ho
      rw [advanceRest_of_error ha]
      exact Fault.operand ho
    | ok progress =>
      rw [ha] at ho
      cases progress with
      | finished value =>
        have h := ihr (fun link hl => ih link (.tail _ hl)) ((operator, value) :: done)
        rw [List.reverse_cons, List.map_append, List.append_assoc] at h
        rw [advanceRest_of_finished ha, show operand = number value from ho]
        exact h
      | moved next =>
        rw [advanceRest_of_moved ha]
        exact Pass.operand ho

/-- **The search for a pass obeys the rules.** -/
theorem obeys_advance (e : Expr Binary64) : e.Obeys (advance e) := by
  induction e using Expr.induction with
  | number value => exact rfl
  | negate inner ih => exact obeys_negate ih
  | group inner ih => exact obeys_group ih
  | chain first rest ihf ihr =>
    cases ha : advance first with
    | error failure =>
      rw [ha] at ihf
      rw [advance_chain_of_error ha]
      exact Fault.first ihf
    | ok progress =>
      rw [ha] at ihf
      cases progress with
      | finished value =>
        rw [advance_chain_of_finished ha, show first = number value from ihf]
        exact obeys_advanceRest ihr value []
      | moved next =>
        rw [advance_chain_of_moved ha]
        exact Pass.first ihf

theorem pass_of_advance {e next : Expr Binary64} (h : advance e = .ok (.moved next)) :
    Pass e next := by
  have := obeys_advance e
  rwa [h] at this

theorem fault_of_advance {e : Expr Binary64} {failure : EvalError}
    (h : advance e = .error failure) : Fault e failure := by
  have := obeys_advance e
  rwa [h] at this

end Expr
end Calculator
