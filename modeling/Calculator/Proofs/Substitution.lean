import Calculator.Proofs.Precedence
import Calculator.Proofs.Replacement
import Calculator.Proofs.RoundTrip
import Calculator.Proofs.Run

/-!
# Writing a value for an expression

What stands in a pair of parentheses counts only through its value: it can be evaluated on its own,
and the text of its value can be written in its place, with no difference to the value of the text
around it, or to the error there.

Two things come together here.  The normal form of a text is made of those of its parts
(`Normal.form_around`), so what stands in the parentheses is an expression there if it is one alone.
And the reader accepts another expression in their place, as long as it is not deeper
(`Expr.exists_replaces_of_group`), which the text of a number never is.

* `exists_parse_group` — an expression in parentheses can be replaced by any other with the same
  outcome that is not deeper.
* `evaluate_group_text` — so it can be replaced by its value.
-/

set_option autoImplicit false

namespace Calculator

open Calculator.Expr Grammar Calculator.Normal

/-! ## Texts after one another -/

namespace Normal

/-- **A text is brought into its normal form part by part.** -/
theorem form_append (left right : List Char) : form (left ++ right) = form left ++ form right := by
  rw [form, form, form, List.filter_append, List.map_append]

theorem form_around (left inner right : List Char) :
    form (around left inner right) = around (form left) (form inner) (form right) := by
  have hgroup : form ('(' :: (inner ++ [')'])) = '(' :: (form inner ++ [')']) := by
    show form (['('] ++ (inner ++ [')'])) = _
    rw [form_append, form_append]
    rfl
  rw [around, form_append, form_append, hgroup, around]

end Normal

/-! ## One expression in the place of another -/

theorem toList_around (p e s : String) :
    (p ++ "(" ++ e ++ ")" ++ s).toList = around p.toList e.toList s.toList := by
  simp [around]

theorem forall_mem_around {P : Char → Prop} {left inner right : List Char} :
    (∀ c ∈ around left inner right, P c) ↔ (∀ c ∈ left, P c) ∧ P '(' ∧ (∀ c ∈ inner, P c) ∧
      P ')' ∧ ∀ c ∈ right, P c := by
  simp only [around, List.forall_mem_append, List.forall_mem_cons, List.not_mem_nil, false_imp_iff,
    implies_true, and_true, and_assoc]

/-- **An expression in parentheses can be replaced by any other that has the same value or error**
and is not deeper; all that is around the parentheses stays as it is. -/
theorem exists_parse_group {p e e' s : String} {inner inner' t : Expr Binary64}
    (he : parse e = .ok inner) (he' : parse e' = .ok inner')
    (hreduce : inner'.reduce = inner.reduce) (hdepth : inner'.groupDepth ≤ inner.groupDepth)
    (h : parse (p ++ "(" ++ e ++ ")" ++ s) = .ok t) :
    ∃ t', parse (p ++ "(" ++ e' ++ ")" ++ s) = .ok t' ∧ t'.reduce = t.reduce := by
  obtain ⟨-, alone, halone, -, hm⟩ := parse_eq_ok_iff_form.1 he
  obtain ⟨hknown', alone', halone', -, hm'⟩ := parse_eq_ok_iff_form.1 he'
  obtain ⟨hknown, whole, hwhole, hlimit, hvalue⟩ := parse_eq_ok_iff_form.1 h
  rw [toList_around] at hknown hwhole
  rw [form_around] at hwhole
  -- in their place, the two are made of the same characters as alone
  obtain ⟨placed, hplaced, -⟩ := exists_isExpr_at halone ((form p.toList).length + 1)
  obtain ⟨placed', hplaced', hmoved⟩ := exists_isExpr_at halone' ((form p.toList).length + 1)
  have hreplaces : Replaces placed placed' :=
    (replaces_of_isExpr hplaced halone).trans
      ((replaces_of_reduce_eq hm hm' hreduce hdepth).trans hmoved)
  obtain ⟨whole', hwhole', hall⟩ := exists_replaces_of_group hplaced hplaced' hreplaces hwhole
  obtain ⟨t', ht', hreduce'⟩ := hall.exists_value t hvalue
  have hlimit' := Nat.le_trans hall.groupDepth_le hlimit
  refine ⟨t', parse_eq_ok_iff_form.2 ⟨?known, whole', ?_, hlimit', ht'⟩, hreduce'⟩
  case known =>
    obtain ⟨hleft, hopen, -, hclose, hright⟩ := forall_mem_around.1 hknown
    rw [toList_around]
    exact forall_mem_around.2 ⟨hleft, hopen, hknown', hclose, hright⟩
  · rwa [toList_around, form_around]

/-- The value of an expression that a text is read as can be written as a text again. -/
theorem parse_text_value {e : Expr Binary64} (h : e.IsReadable) {value : Binary64}
    (hvalue : e.reduce = .ok value) : parse value.text = .ok (number value) := by
  have hreadable : (number value).IsReadable := (reduce_eq_ok_iff_reaches.1 hvalue).isReadable h
  exact parse_value_text (hreadable.finite value (.head _))

/-- **An expression in parentheses can be replaced by its value.**  Where a text is parsed that has
an expression in parentheses, the text of the value of the expression can be written instead, and
nothing changes: neither the value of the whole nor the error there, which is one of arithmetic. -/
theorem evaluate_group_text {p e s : String} {value : Binary64} {t : Expr Binary64}
    (he : evaluate e = .ok value) (h : parse (p ++ "(" ++ e ++ ")" ++ s) = .ok t) :
    evaluate (p ++ "(" ++ e ++ ")" ++ s) = evaluate (p ++ "(" ++ value.text ++ ")" ++ s) ∧
      ∀ failure, evaluate (p ++ "(" ++ e ++ ")" ++ s) = .error failure →
        failure.isSyntax = false := by
  obtain ⟨inner, hinner, hvalue⟩ := evaluate_eq_ok_iff.1 he
  have hnumber := parse_text_value (isReadable_of_parse hinner) hvalue
  obtain ⟨t', ht', hreduce⟩ := exists_parse_group hinner hnumber hvalue.symm (Nat.zero_le _) h
  rw [evaluate_eq_reduce h, evaluate_eq_reduce ht']
  exact ⟨hreduce.symm, fun failure hfailure => Formula.isSyntax_of_reduce hfailure⟩

/-- A group after a minus sign as the second factor, with blanks and both separators. -/
theorem evaluate_group_text_factor :
    evaluate " 1,5 + 1.5" = .ok (.ofBits 0x4008000000000000) ∧
      evaluate ("2*-" ++ "(" ++ " 1,5 + 1.5" ++ ")" ++ " - (0 ,5)") =
        evaluate ("2*-" ++ "(" ++ "3" ++ ")" ++ " - (0 ,5)") := by
  have he : evaluate " 1,5 + 1.5" = .ok (.ofBits 0x4008000000000000) := by decide +kernel
  have htext : (Binary64.ofBits 0x4008000000000000).text = "3" := by decide +kernel
  have hparse : (parse ("2*-" ++ "(" ++ " 1,5 + 1.5" ++ ")" ++ " - (0 ,5)")).isOk = true := by
    decide +kernel
  cases h : parse ("2*-" ++ "(" ++ " 1,5 + 1.5" ++ ")" ++ " - (0 ,5)") with
  | error failure =>
    rw [h] at hparse
    cases hparse
  | ok t =>
    have heq := (evaluate_group_text he h).1
    rw [htext] at heq
    exact ⟨he, heq⟩

end Calculator
