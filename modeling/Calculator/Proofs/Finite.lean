import Calculator.Proofs.RoundTrip

/-!
# Finite numbers

No infinity and no "not a number" gets into an expression or out of one.  A literal whose value
would be none is an error, an application whose result would be none is another, and all that
happens to a number between its applications is that its sign changes.

So finite numbers are all that a pass makes of finite numbers (`Expr.Pass.isFinite`), and all that
is ever read (`isReadable_of_parse`).  The value of an expression is the number at the end of its
run, and needs no argument of its own.
-/

set_option autoImplicit false

namespace Calculator

open Calculator.Expr

namespace Expr

variable {e last : Expr Binary64}

theorem Reaches.isFinite (run : Reaches e last) (h : ∀ x ∈ e.numbers, x.IsFinite) :
    ∀ x ∈ last.numbers, x.IsFinite :=
  run.invariant (P := fun e => ∀ x ∈ e.numbers, x.IsFinite) (fun _ _ hp => hp.isFinite) h

/-- **The value of an expression of finite numbers is finite.** -/
theorem isFinite_of_reduce (h : ∀ x ∈ e.numbers, x.IsFinite) {value : Binary64}
    (hv : e.reduce = .ok value) : value.IsFinite :=
  (reduce_eq_ok_iff_reaches.1 hv).isFinite h value (.head _)

end Expr

/-- **The value of a text is finite.** -/
theorem isFinite_of_evaluate {raw : String} {value : Binary64} (h : evaluate raw = .ok value) :
    value.IsFinite := by
  obtain ⟨e, hp, hv⟩ := evaluate_eq_ok_iff.1 h
  exact isFinite_of_reduce (isReadable_of_parse hp).finite hv

/-- **No infinity and no "not a number" gets in or out.**  All numbers of a tree that is parsed are
finite, and of every tree that passes make of it; and so is the value of a text.  More generally
both ways to evaluate keep to finite numbers on every tree that has no others. -/
theorem numbers_stay_finite :
    (∀ raw e, parse raw = .ok e → ∀ last, Reaches e last → ∀ x ∈ last.numbers, x.IsFinite) ∧
    (∀ raw value, evaluate raw = .ok value → value.IsFinite) ∧
    ∀ e : Expr Binary64, (∀ x ∈ e.numbers, x.IsFinite) →
      (∀ value, e.reduce = .ok value → value.IsFinite) ∧
      ∀ next, e.step = .ok (some next) → ∀ x ∈ next.numbers, x.IsFinite := by
  refine ⟨?parsed, fun raw value => isFinite_of_evaluate, ?anyTree⟩
  case parsed =>
    intro raw e hp last run
    exact run.isFinite (isReadable_of_parse hp).finite
  case anyTree =>
    intro e h
    exact ⟨fun value => isFinite_of_reduce h, fun next hs => (pass_of_step hs).isFinite h⟩

end Calculator
