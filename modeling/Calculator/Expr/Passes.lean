import Calculator.Expr.PassCount
import Calculator.Expr.Render

/-!
# Evaluation pass by pass

`Expr.passes` runs `Expr.advance` until a number is left or an application fails, and keeps every
tree on the way, together with the error that ended the run, if one did.  The run ends because each
pass lowers `passCount`.

`Expr.trace` is what is shown of a run that ends well: the text of the tree and of every tree after
it.  A run that ends in an error has no trace, but its passes are still there for the log.
-/

set_option autoImplicit false

namespace Calculator
namespace Expr

/-- A run of passes: the tree after each of them, and what stopped the run before a number was
left. -/
structure Passes where
  trees : List (Expr Binary64)
  failure : Option EvalError

/-- All passes from an expression on. -/
def passes (e : Expr Binary64) : Passes :=
  match h : advance e with
  | .ok (.finished _) => { trees := [], failure := none }
  | .ok (.moved next) =>
    have : next.passCount < e.passCount := by have := passCount_of_advance e next h; omega
    let run := passes next
    { run with trees := next :: run.trees }
  | .error failure => { trees := [], failure := some failure }
termination_by e.passCount

/-- The texts of an expression and of the tree after every pass. -/
def trace (e : Expr Binary64) : Except EvalError (List String) :=
  let run := e.passes
  match run.failure with
  | none => .ok ((e :: run.trees).map text)
  | some failure => .error failure

theorem passes_eq_of_moved {e next : Expr Binary64} (h : advance e = .ok (.moved next)) :
    e.passes = { next.passes with trees := next :: next.passes.trees } := by
  rw [passes]
  split
  · simp_all
  · simp_all
  · simp_all

theorem passes_number (value : Binary64) :
    (number value).passes = { trees := [], failure := none } := by
  rw [passes]
  split
  · rfl
  · rename_i h; simp [advance] at h
  · rename_i h; simp [advance] at h

theorem passes_eq_of_error {e : Expr Binary64} {failure : EvalError}
    (h : advance e = .error failure) : e.passes = { trees := [], failure := some failure } := by
  rw [passes]
  split <;> simp_all

end Expr
end Calculator
