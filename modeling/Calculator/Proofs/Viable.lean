import Calculator.Expr.Misreading
import Calculator.Proofs.Reading

/-!
# Where the machine stops

The machine that reads an expression stops at the end of the longest beginning of the text that
some expression has (`StopsAt.isGreatest`).

* It never goes too far: from every state some continuation of the text leads to an expression, if
  only a `0` where an operand is awaited and then one `)` for every open frame (`exists_finish`).
* It never stops too early.  It makes no choices, so what leads it to a state does so whatever
  follows (`Takes`); and where it cannot read a character, no text that goes on with this character
  is read.
-/

set_option autoImplicit false

namespace Calculator
namespace Expr

open Grammar

namespace Pushdown

/-! ## Every state is viable -/

/-- Where an operand may end, closing all frames ends the text. -/
theorem exists_finish_of_operand? (outer : List Frame) : ∀ before operand last position,
    (⟨outer, before, operand⟩ : Pushdown).operand? = some last →
      ∃ tail e, (⟨outer, before, operand⟩ : Pushdown).finish position tail = .ok e := by
  induction outer with
  | nil =>
    intro before operand last position h
    refine ⟨[], close before last, ?_⟩
    simp only [finish, result?, h, Option.map_some]
  | cons frame outer ih =>
    intro before operand last position h
    have hclose := takes_close h position
    obtain ⟨tail, e, htail⟩ := ih frame.before (.complete _) _ _ rfl
    exact ⟨')' :: tail, e, (hclose tail).trans htail⟩

/-- **From every state some continuation of the text leads to an expression.** -/
theorem exists_finish (s : Pushdown) (position : Nat) :
    ∃ tail e, s.finish position tail = .ok e := by
  obtain ⟨outer, before, operand⟩ := s
  cases operand with
  | awaited negated =>
    have hzero : IsRun ['0'] := ⟨by simp, List.forall_mem_singleton.2 (by decide)⟩
    have htakes := takes_isRun hzero outer before negated position
    obtain ⟨tail, e, htail⟩ := exists_finish_of_operand? outer before (.run negated _ _) _ _ rfl
    exact ⟨'0' :: tail, e, (htakes tail).trans htail⟩
  | run negated reversed start => exact exists_finish_of_operand? outer before _ _ position rfl
  | complete operand => exact exists_finish_of_operand? outer before _ operand position rfl

theorem isViable_of_takes {text : List Char} {s : Pushdown} (h : Takes start 0 text s) :
    IsViable text := by
  obtain ⟨tail, e, hfinish⟩ := s.exists_finish (0 + text.length)
  exact ⟨tail, e, ofText_eq_ok_iff.1 ((h tail).trans hfinish)⟩

/-! ## Where it stops -/

/-- A state in which the text may not end, if it does, and may not go on as it does otherwise. -/
def IsStuck (s : Pushdown) (position : Nat) : List Char → Prop
  | [] => s.result? = none
  | c :: _ => s.read? position c = none

/-- The machine reads a text, which begins at `position`, as far as `place` and no farther. -/
def StopsAt (s : Pushdown) (position : Nat) (text : List Char) (place : Nat) : Prop :=
  ∃ read rest s', text = read ++ rest ∧ Takes s position read s' ∧ place = position + read.length ∧
    s'.IsStuck place rest

variable {s s' next : Pushdown} {position place : Nat} {text rest : List Char}

theorem IsStuck.stopsAt (h : s.IsStuck position rest) : s.StopsAt position rest position :=
  ⟨[], rest, s, rfl, .nil _ _, rfl, h⟩

theorem Takes.stopsAt (h : Takes s position text s')
    (h' : s'.StopsAt (position + text.length) rest place) :
    s.StopsAt position (text ++ rest) place := by
  obtain ⟨read, rest, s'', rfl, htakes, rfl, hstuck⟩ := h'
  exact ⟨text ++ read, rest, s'', by simp, h.append htakes, by simp [Nat.add_assoc], hstuck⟩

theorem exists_stopsAt {failure : EvalError} (h : s.finish position text = .error failure) :
    ∃ place, s.StopsAt position text place := by
  induction text generalizing s position with
  | nil =>
    rw [finish] at h
    split at h
    · cases h
    · rename_i hresult
      exact ⟨position, IsStuck.stopsAt hresult⟩
  | cons c text ih =>
    rw [finish] at h
    split at h
    · rename_i next hread
      obtain ⟨place, hstops⟩ := ih h
      exact ⟨place, (Takes.cons hread (.nil _ _)).stopsAt hstops⟩
    · rename_i hread
      exact ⟨position, IsStuck.stopsAt hread⟩

theorem IsStuck.finish_eq (h : s.IsStuck position rest) : s.finish position rest =
    .error (.malformedOperand (String.ofList (rest.takeWhile isNumeralChar)) position) := by
  cases rest with
  | nil =>
    rw [IsStuck] at h
    rw [finish, h, List.takeWhile_nil, String.ofList_nil]
  | cons c rest =>
    rw [IsStuck] at h
    rw [finish, h]

/-- **Where the machine stops, reading fails**, with the digits and dots that stand there. -/
theorem StopsAt.finish_eq (h : s.StopsAt position text place) : s.finish position text =
    .error (.malformedOperand
      (String.ofList ((text.drop (place - position)).takeWhile isNumeralChar)) place) := by
  obtain ⟨read, rest, s', rfl, htakes, rfl, hstuck⟩ := h
  rw [htakes, hstuck.finish_eq, Nat.add_sub_cancel_left, List.drop_left]

/-- **The machine stops at the end of the longest beginning that some expression has.** -/
theorem StopsAt.isGreatest (h : start.StopsAt 0 text place) :
    IsGreatest (viableLengths text) place := by
  obtain ⟨read, rest, s, rfl, htakes, rfl, hstuck⟩ := h
  rw [Nat.zero_add] at hstuck ⊢
  refine ⟨⟨by simp, ?_⟩, fun n hn => Nat.le_of_not_lt fun hlt => ?_⟩
  · rw [List.take_left]
    exact isViable_of_takes htakes
  · obtain ⟨hle, tail, e, hsentence⟩ := hn
    cases rest with
    | nil =>
      rw [List.append_nil] at hle
      omega
    | cons c rest =>
      -- an expression would go on with the character at which the machine is stuck
      obtain ⟨k, rfl⟩ : ∃ k, n = read.length + (k + 1) := ⟨n - read.length - 1, by omega⟩
      rw [List.take_length_add_append, List.take_succ_cons, List.append_assoc,
        List.cons_append] at hsentence
      have hread := ofText_of_isExpr hsentence
      have hstuck' : s.IsStuck read.length (c :: (rest.take k ++ tail)) := hstuck
      rw [ofText, htakes, Nat.zero_add, hstuck'.finish_eq] at hread
      cases hread

end Pushdown

open Pushdown

/-- A text that is no expression is misread at the end of its longest viable beginning. -/
theorem ofText_eq_error_iff {text : List Char} {failure : EvalError} :
    ofText text = .error failure ↔ ∃ place, start.StopsAt 0 text place ∧ failure =
      .malformedOperand (String.ofList ((text.drop place).takeWhile isNumeralChar)) place := by
  constructor
  · intro h
    obtain ⟨place, hstops⟩ := exists_stopsAt h
    exact ⟨place, hstops, (Except.error.inj (hstops.finish_eq.symm.trans h)).symm⟩
  · rintro ⟨place, hstops, rfl⟩
    exact hstops.finish_eq

theorem not_isSentence_iff {text : List Char} :
    ¬ IsSentence text ↔ ∃ place, start.StopsAt 0 text place := by
  constructor
  · intro h
    cases hread : ofText text with
    | error failure => exact exists_stopsAt hread
    | ok e => exact absurd ⟨e, ofText_eq_ok_iff.1 hread⟩ h
  · rintro ⟨place, hstops⟩ ⟨e, he⟩
    have hread := hstops.finish_eq.symm.trans (ofText_of_isExpr he)
    cases hread

end Expr
end Calculator
