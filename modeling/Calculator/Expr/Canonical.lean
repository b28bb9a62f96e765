import Calculator.Expr.Numbers
import Calculator.Expr.Render
import Calculator.Expr.Shape

/-!
# The canonical form of an expression

A tree may have shapes that no text has, and still it has a text.  Its canonical form is the tree
that the text is written for.  The parentheses that the text has beyond those of groups are groups
in it, a minus sign before a run belongs to the number, and a chain without operators is its
operand; apart from that the tree is as it was.

The definition follows `Expr.chars` place by place: `groupIf` is where `bracketsIf` is there, and
`minus` is where a minus sign is written.
-/

set_option autoImplicit false

namespace Calculator
namespace Expr

/-- An expression, in a group if asked for. -/
def groupIf {α : Type} (grouped : Bool) (e : Expr α) : Expr α := if grouped then group e else e

/-- What a minus sign makes of an operand: it belongs to a number, and stands before all else. -/
def minus : Expr Binary64 → Expr Binary64
  | number value => number (-value)
  | e => negate e

mutual

/-- The tree that the text of an expression is written for. -/
def canonical : Expr Binary64 → Expr Binary64
  | number value => number value
  | negate inner => minus (groupIf inner.bracketedAfterMinus (canonical inner))
  | group inner => group (canonical inner)
  | chain first rest => ofChain (groupIf first.isChain (canonical first)) (canonicalRest rest)

/-- The operands in the rest of a chain, each in its canonical form. -/
def canonicalRest : List (Operator × Expr Binary64) → List (Operator × Expr Binary64)
  | [] => []
  | (operator, operand) :: rest =>
    (operator, groupIf operand.isChain (canonical operand)) :: canonicalRest rest

end

/-! ## Its shape -/

theorem isChain_minus (e : Expr Binary64) : e.minus.isChain = false := by
  cases e <;> rfl

/-- Only a chain has a chain as its canonical form. -/
theorem isChain_canonical {e : Expr Binary64} (h : e.isChain = false) :
    e.canonical.isChain = false := by
  cases e with
  | number value => rfl
  | negate inner => exact isChain_minus _
  | group inner => rfl
  | chain first rest => cases h

/-- So an operand of a chain in canonical form is none. -/
theorem isChain_groupIf_canonical (e : Expr Binary64) :
    (groupIf e.isChain e.canonical).isChain = false := by
  cases h : e.isChain with
  | false => exact isChain_canonical h
  | true => rfl

theorem isCanonical_groupIf {e : Expr Binary64} (h : e.IsCanonical) (grouped : Bool) :
    (groupIf grouped e).IsCanonical := by
  cases grouped with
  | false => exact h
  | true => exact .group h

/-- A minus sign stands directly before numbers without a sign and before groups. -/
theorem eq_number_or_eq_group {e : Expr Binary64} (h : e.bracketedAfterMinus = false) :
    (∃ value, e = number value ∧ value.negative = false) ∨ ∃ inner, e = group inner := by
  cases e with
  | number value => exact .inl ⟨value, rfl, h⟩
  | negate inner => cases h
  | group inner => exact .inr ⟨inner, rfl⟩
  | chain first rest => cases h

theorem isCanonical_minus {inner : Expr Binary64} (h : inner.canonical.IsCanonical) :
    (minus (groupIf inner.bracketedAfterMinus inner.canonical)).IsCanonical := by
  cases hb : inner.bracketedAfterMinus with
  | true => exact .negate h
  | false =>
    rcases eq_number_or_eq_group hb with ⟨value, rfl, -⟩ | ⟨inner, rfl⟩
    · exact .number _
    · exact .negate (isCanonical_group_iff.1 h)

theorem isCanonical_canonicalRest {rest : List (Operator × Expr Binary64)}
    (h : ∀ link ∈ rest, link.2.canonical.IsCanonical) :
    ∀ link ∈ canonicalRest rest, link.2.IsCanonical ∧ link.2.isChain = false := by
  induction rest with
  | nil => intro link hl; cases hl
  | cons head rest ih =>
    obtain ⟨operator, operand⟩ := head
    intro link hl
    rcases List.mem_cons.1 hl with rfl | hl
    · exact ⟨isCanonical_groupIf (h _ (.head _)) _, isChain_groupIf_canonical operand⟩
    · exact ih (fun link hl => h link (.tail _ hl)) link hl

/-- **The canonical form of an expression is canonical.** -/
theorem isCanonical_canonical (e : Expr Binary64) : e.canonical.IsCanonical := by
  induction e using Expr.induction with
  | number value => exact .number value
  | negate inner ih => exact isCanonical_minus ih
  | group inner ih => exact .group ih
  | chain first rest ihf ihr =>
    have hrest := isCanonical_canonicalRest ihr
    rw [canonical]
    exact .ofChain (isCanonical_groupIf ihf _) (fun link hl => (hrest link hl).1)
      (isChain_groupIf_canonical first) fun link hl => (hrest link hl).2

/-! ## Its numbers and operators -/

theorem numbers_groupIf {α : Type} (grouped : Bool) (e : Expr α) :
    (groupIf grouped e).numbers = e.numbers := by
  cases grouped <;> rfl

theorem isFinite_minus {e : Expr Binary64} (h : ∀ x ∈ e.numbers, x.IsFinite) :
    ∀ x ∈ e.minus.numbers, x.IsFinite := by
  cases e with
  | number value =>
    intro x hx
    rw [List.mem_singleton.1 hx, Binary64.isFinite_neg]
    exact h value (.head _)
  | negate | group | chain => exact h

theorem isFinite_canonicalRest {rest : List (Operator × Expr Binary64)}
    (h : ∀ link ∈ rest, ∀ x ∈ link.2.canonical.numbers, x.IsFinite) :
    ∀ x ∈ numbersRest (canonicalRest rest), x.IsFinite := by
  induction rest with
  | nil => intro x hx; cases hx
  | cons link rest ih =>
    intro x hx
    rw [canonicalRest, numbersRest, numbers_groupIf] at hx
    rcases List.mem_append.1 hx with hx | hx
    · exact h _ (.head _) x hx
    · exact ih (fun link hl => h link (.tail _ hl)) x hx

/-- The canonical form has no other numbers but for their signs. -/
theorem isFinite_canonical (e : Expr Binary64) (h : ∀ x ∈ e.numbers, x.IsFinite) :
    ∀ x ∈ e.canonical.numbers, x.IsFinite := by
  induction e using Expr.induction with
  | number value => exact h
  | negate inner ih =>
    rw [canonical]
    refine isFinite_minus ?_
    rw [numbers_groupIf]
    exact ih h
  | group inner ih => exact ih h
  | chain first rest ihf ihr =>
    have hrest := isFinite_canonicalRest fun link hl => ihr link hl fun x hx =>
      h x (List.mem_append_right _ (mem_numbersRest_iff.2 ⟨link, hl, hx⟩))
    intro x hx
    rw [canonical, numbers_ofChain, numbers_groupIf] at hx
    rcases List.mem_append.1 hx with hx | hx
    · exact ihf (fun x hx => h x (List.mem_append_left _ hx)) x hx
    · exact hrest x hx

theorem operators_groupIf {α : Type} (grouped : Bool) (e : Expr α) :
    (groupIf grouped e).operators = e.operators := by
  cases grouped <;> rfl

theorem operators_minus (e : Expr Binary64) : e.minus.operators = e.operators := by
  cases e <;> rfl

theorem operatorsRest_canonicalRest {rest : List (Operator × Expr Binary64)}
    (h : ∀ link ∈ rest, link.2.canonical.operators = link.2.operators) :
    operatorsRest (canonicalRest rest) = operatorsRest rest := by
  induction rest with
  | nil => rfl
  | cons link rest ih =>
    obtain ⟨operator, operand⟩ := link
    have hoperand := h (operator, operand) (.head _)
    have hrest := ih fun link hl => h link (.tail _ hl)
    rw [canonicalRest, operatorsRest, operatorsRest, operators_groupIf, hoperand, hrest]

/-- The canonical form has the same operators in the same order. -/
theorem operators_canonical (e : Expr Binary64) : e.canonical.operators = e.operators := by
  induction e using Expr.induction with
  | number value => rfl
  | negate inner ih => rw [canonical, operators_minus, operators_groupIf, ih, operators]
  | group inner ih => rw [canonical, operators, ih, operators]
  | chain first rest ihf ihr =>
    rw [canonical, operators_ofChain, operators_groupIf, ihf, operatorsRest_canonicalRest ihr,
      operators]

end Expr
end Calculator
