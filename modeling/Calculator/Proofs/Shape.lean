import Calculator.Proofs.Depth
import Calculator.Proofs.Run

/-!
# The shape of the trees that are made

Nothing in the type of expressions keeps a minus sign from standing before a chain, or a chain from
being an operand of another one.  Still no tree like that comes about (`trees_are_canonical`).
Reading only builds canonical trees, because the grammar has no other operands; and a pass keeps the
shape, because what it puts in the place of an operand is no chain unless the operand was one.

There is no more to be said of the trees that are read: every canonical tree of finite numbers is
read from its own text.  Without the shape this fails, since parentheses that no group stands for
are groups when they are read.
-/

set_option autoImplicit false

namespace Calculator

open Calculator.Expr Grammar

/-! ## What is read -/

/-- What a text is read as is canonical and has finite numbers. -/
theorem isCanonical_of_parse {text : String} {e : Expr Binary64}
    (h : Expr.parse text.toList = .ok e) : e.IsCanonical ∧ ∀ x ∈ e.numbers, x.IsFinite := by
  obtain ⟨literals, hl, hm, -⟩ := exists_isExpr_of_parse h
  exact ⟨(isCanonical_of_isExpr hl).of_mapM hm,
    forall_numbers_of_mapM (fun _ _ => isFinite_of_value) literals e hm⟩

/-- The text of a canonical tree of finite numbers is read as that tree, however deep it is. -/
theorem Expr.IsCanonical.parse_text {e : Expr Binary64} (hc : e.IsCanonical)
    (hf : ∀ x ∈ e.numbers, x.IsFinite) : Expr.parse e.text.toList = .ok e := by
  obtain ⟨-, literals, hl, hm⟩ := hc.exists_literals hf 0
  rw [toList_text]
  exact bind_eq_ok_iff.2 ⟨literals, ofText_of_isExpr hl, hm⟩

/-- **The trees that are read are the canonical trees of finite numbers.** -/
theorem exists_parse_iff {e : Expr Binary64} :
    (∃ text : String, Expr.parse text.toList = .ok e) ↔
      e.IsCanonical ∧ ∀ x ∈ e.numbers, x.IsFinite := by
  constructor
  · rintro ⟨text, h⟩
    exact isCanonical_of_parse h
  · rintro ⟨hc, hf⟩
    exact ⟨e.text, hc.parse_text hf⟩

/-! ## What passes make of it -/

theorem Expr.IsCanonical.of_step {e next : Expr Binary64} (hc : e.IsCanonical)
    (h : e.step = .ok (some next)) : next.IsCanonical ∧ next.groupDepth ≤ e.groupDepth :=
  ⟨(pass_of_step h).isCanonical hc, (pass_of_step h).groupDepth_le⟩

/-- **The program only makes canonical trees, and it makes all of them.**  A tree is canonical if
negations in it are negations of groups, and chains in it have operators and no chains as operands.
What is read is canonical; a pass keeps the shape, and makes nothing deeper; and if its numbers are
finite, a canonical tree is read from its own text.  So these are exactly the trees that are
read. -/
theorem trees_are_canonical :
    (∀ e : Expr Binary64, e.IsCanonical ↔
      (∀ inner, IsPart (negate inner) e → ∃ inner', inner = group inner') ∧
      ∀ first rest, IsPart (chain first rest) e →
        rest ≠ [] ∧ first.isChain = false ∧ ∀ link ∈ rest, link.2.isChain = false) ∧
    (∀ (text : String) (e : Expr Binary64), Expr.parse text.toList = .ok e → e.IsCanonical) ∧
    (∀ e next : Expr Binary64, e.IsCanonical → e.step = .ok (some next) →
      next.IsCanonical ∧ next.groupDepth ≤ e.groupDepth) ∧
    (∀ e : Expr Binary64, e.IsCanonical → (∀ x ∈ e.numbers, x.IsFinite) →
      Expr.parse e.text.toList = .ok e) ∧
    ∀ e : Expr Binary64, (∃ text : String, Expr.parse text.toList = .ok e) ↔
      e.IsCanonical ∧ ∀ x ∈ e.numbers, x.IsFinite :=
  ⟨fun _ => isCanonical_iff_isPart, fun _ _ h => (isCanonical_of_parse h).1,
    fun _ _ hc h => hc.of_step h, fun _ hc hf => hc.parse_text hf, fun _ => exists_parse_iff⟩

/-- A pass makes `-(0+0)` of `-(0+0+0)`: the minus sign stands before a group as it did before. -/
theorem trees_are_canonical_negated_group :
    ∃ e next : Expr Binary64, Expr.parse "-(0+0+0)".toList = .ok e ∧ e.IsCanonical ∧
      e.step = .ok (some next) ∧ next.text = "-(0+0)" ∧ next.IsCanonical ∧
      next.groupDepth ≤ e.groupDepth := by
  have hp : Expr.parse "-(0+0+0)".toList = .ok (negate (group (chain (number (.ofBits 0))
      [(.add, number (.ofBits 0)), (.add, number (.ofBits 0))]))) := by rfl
  have hstep : (negate (group (chain (number (.ofBits 0))
      [(.add, number (.ofBits 0)), (.add, number (.ofBits 0))]))).step =
      .ok (some (negate (group (binary (number (.ofBits 0)) .add (number (.ofBits 0)))))) := by rfl
  obtain ⟨-, hparse, hpass, -, -⟩ := trees_are_canonical
  have hc := hparse _ _ hp
  exact ⟨_, _, hp, hc, hstep, by rfl, hpass _ _ hc hstep⟩

end Calculator
