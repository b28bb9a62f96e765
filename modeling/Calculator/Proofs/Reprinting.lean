import Calculator.Expr.Canonical
import Calculator.Proofs.Depth

/-!
# Reading the text of any tree

The text of a tree is read as the tree only if the tree has the shape of those that are read from
texts.  Of any other tree it is read as the canonical form (`Expr.canonical`), and this file shows
that the difference does not matter: the canonical form has the same text, the same value or error,
and the same operators.

* `chars_canonical` — a tree and its canonical form are written alike, place by place.
* `reduce_canonical` — they have the same value, or the same error in its place.
* `parse_text_canonical` — so the text of any tree of finite numbers is read as a tree that stands
  for it in every respect, unless it is nested too deep.
-/

set_option autoImplicit false

namespace Calculator
namespace Expr

/-! ## The text -/

theorem chars_groupIf (grouped : Bool) (e : Expr Binary64) :
    (groupIf grouped e).chars = bracketsIf grouped e.chars := by
  cases grouped <;> rfl

/-- The minus sign of a number is written as a minus sign before it. -/
theorem chars_number_neg {value : Binary64} (hfinite : value.IsFinite)
    (hsign : value.negative = false) :
    (number (-value)).chars = '-' :: (number value).chars := by
  have hneg : (-value).IsFinite := (Binary64.isFinite_neg value).2 hfinite
  have hnegative : (-value).negative = true := by
    show (!value.negative) = true
    rw [hsign, Bool.not_false]
  have hdigits : (-value).digits = value.digits := rfl
  rw [chars, chars, Binary64.toList_text hneg, Binary64.toList_text hfinite, if_pos hnegative,
    hsign, if_neg Bool.false_ne_true, hdigits]

theorem chars_minus (inner : Expr Binary64) (hfinite : ∀ x ∈ inner.numbers, x.IsFinite)
    (h : inner.canonical.chars = inner.chars) :
    (minus (groupIf inner.bracketedAfterMinus inner.canonical)).chars =
      '-' :: bracketsIf inner.bracketedAfterMinus inner.chars := by
  cases hb : inner.bracketedAfterMinus with
  | true =>
    have hgroup : (group inner.canonical).bracketedAfterMinus = false := rfl
    rw [groupIf, if_pos rfl, minus, chars, hgroup, bracketsIf, if_neg Bool.false_ne_true, chars, h,
      bracketsIf, if_pos rfl]
    intro value hvalue
    cases hvalue
  | false =>
    rw [groupIf, if_neg Bool.false_ne_true, bracketsIf, if_neg Bool.false_ne_true, ← h]
    rcases eq_number_or_eq_group hb with ⟨value, rfl, hsign⟩ | ⟨inner, rfl⟩
    · exact chars_number_neg (hfinite value (.head _)) hsign
    · rfl

theorem chars_ofChain {first : Expr Binary64} (flat : first.isChain = false)
    (rest : List (Operator × Expr Binary64)) :
    (ofChain first rest).chars = first.chars ++ charsRest rest := by
  cases rest with
  | nil => rw [ofChain, charsRest, List.append_nil]
  | cons link rest => rw [ofChain, chars, flat, bracketsIf, if_neg Bool.false_ne_true]

theorem charsRest_canonicalRest {rest : List (Operator × Expr Binary64)}
    (h : ∀ link ∈ rest, link.2.canonical.chars = link.2.chars) :
    charsRest (canonicalRest rest) = charsRest rest := by
  induction rest with
  | nil => rfl
  | cons link rest ih =>
    obtain ⟨operator, operand⟩ := link
    have hoperand := h (operator, operand) (.head _)
    have hrest := ih fun link hl => h link (.tail _ hl)
    have hflat := isChain_groupIf_canonical operand
    rw [canonicalRest, charsRest, charsRest, hflat, chars_groupIf, hoperand, hrest]
    rfl

/-- **A tree and its canonical form are written alike.** -/
theorem chars_canonical (e : Expr Binary64) (h : ∀ x ∈ e.numbers, x.IsFinite) :
    e.canonical.chars = e.chars := by
  induction e using Expr.induction with
  | number value => rfl
  | negate inner ih => rw [canonical, chars_minus inner h (ih h), chars]
  | group inner ih => rw [canonical, chars, ih h, chars]
  | chain first rest ihf ihr =>
    have hfirst := ihf fun x hx => h x (List.mem_append_left _ hx)
    have hrest := charsRest_canonicalRest fun link hl => ihr link hl fun x hx =>
      h x (List.mem_append_right _ (mem_numbersRest_iff.2 ⟨link, hl, hx⟩))
    rw [canonical, chars_ofChain (isChain_groupIf_canonical first), chars_groupIf, hfirst, hrest,
      chars]

theorem text_canonical {e : Expr Binary64} (h : ∀ x ∈ e.numbers, x.IsFinite) :
    e.canonical.text = e.text := by
  have hchars : e.canonical.text.toList = e.text.toList := by
    rw [toList_text, toList_text, chars_canonical e h]
  exact String.toList_injective hchars

/-! ## The value -/

theorem reduce_groupIf (grouped : Bool) (e : Expr Binary64) :
    (groupIf grouped e).reduce = e.reduce := by
  cases grouped with
  | false => rfl
  | true => rw [groupIf, if_pos rfl, reduce]

theorem reduce_minus (e : Expr Binary64) :
    e.minus.reduce = e.reduce.map fun value => -value := by
  cases e with
  | number value => rw [minus, reduce, reduce, Except.map]
  | negate inner => rw [minus, reduce]; rintro value ⟨⟩
  | group inner => rw [minus, reduce]; rintro value ⟨⟩
  | chain first rest => rw [minus, reduce]; rintro value ⟨⟩

theorem reduceRest_canonicalRest {rest : List (Operator × Expr Binary64)}
    (h : ∀ link ∈ rest, link.2.canonical.reduce = link.2.reduce) (running : Running) :
    reduceRest running (canonicalRest rest) = reduceRest running rest := by
  induction rest generalizing running with
  | nil => rfl
  | cons link rest ih =>
    obtain ⟨operator, operand⟩ := link
    have hoperand := h (operator, operand) (.head _)
    have hrest := ih fun link hl => h link (.tail _ hl)
    simp only [canonicalRest, reduceRest_cons, reduce_groupIf, hoperand, hrest]

/-- **A tree and its canonical form have the same value**, or the same error in its place. -/
theorem reduce_canonical (e : Expr Binary64) : e.canonical.reduce = e.reduce := by
  induction e using Expr.induction with
  | number value => rfl
  | negate inner ih => rw [canonical, reduce_minus, reduce_groupIf, ih, reduce]
  | group inner ih => rw [canonical, reduce, ih, reduce]
  | chain first rest ihf ihr =>
    simp only [canonical, reduce_ofChain, reduce_chain, reduce_groupIf, ihf,
      reduceRest_canonicalRest ihr]

/-! ## Reading the text -/

theorem operationCount_canonical (e : Expr Binary64) :
    e.canonical.operationCount = e.operationCount := by
  rw [operationCount_eq_length_operators, operationCount_eq_length_operators, operators_canonical]

/-- The text of a tree is written for literals that have the values in its canonical form. -/
theorem exists_literals_canonical {e : Expr Binary64} (h : ∀ x ∈ e.numbers, x.IsFinite) :
    ∃ literals, Grammar.IsExpr 0 e.text.toList literals ∧
      literals.mapM Literal.value = .ok e.canonical := by
  obtain ⟨-, literals, hl, hm⟩ :=
    (isCanonical_canonical e).exists_literals (isFinite_canonical e h) 0
  rw [chars_canonical e h, ← toList_text] at hl
  exact ⟨literals, hl, hm⟩

end Expr

open Calculator.Expr Grammar Nesting

/-- **Printing is faithful to every tree of finite numbers**, whatever its shape.  Its text is read
as a tree with the same value or error, the same number of operators and the same text; and after
the checks it is read as that same tree if its parentheses are not nested too deep, and refused for
that otherwise. -/
theorem parse_text_canonical {e : Expr Binary64} (h : ∀ x ∈ e.numbers, x.IsFinite) :
    ∃ u, Expr.parse e.text.toList = .ok u ∧ u.reduce = e.reduce ∧
      u.operationCount = e.operationCount ∧ u.text = e.text ∧
      (deepest e.text.toList ≤ nestingLimit → parse e.text = .ok u) ∧
      (nestingLimit < deepest e.text.toList → ∃ place,
        OpensFirst e.text.toList (nestingLimit + 1) place ∧
        parse e.text = .error (.nestingTooDeep place nestingLimit)) := by
  obtain ⟨literals, hl, hm⟩ := exists_literals_canonical h
  have hdepth : deepest e.text.toList = literals.groupDepth := deepest_of_isExpr hl
  refine ⟨e.canonical, bind_eq_ok_iff.2 ⟨literals, ofText_of_isExpr hl, hm⟩, reduce_canonical e,
    operationCount_canonical e, text_canonical h, fun hle => ?_, fun hlt => ?_⟩
  · refine parse_of_isExpr hl hm ?_
    rwa [groupDepth_of_mapM literals _ hm, ← hdepth]
  · obtain ⟨place, hplace, hvalidate⟩ := Normal.validate_of_lt hl (hdepth ▸ hlt)
    exact ⟨place, hplace, parse_eq_error (normalize_eq_error hvalidate)⟩

/-- Signs before signs, and a chain without operators as an operand: the text is read as another
tree than it was written for, which stands for it all the same. -/
theorem parse_text_canonical_signs :
    ∃ e : Expr Binary64,
      e = chain (negate (number (.ofBits 0x8000000000000000)))
        [(.subtract, chain (negate (negate (number (.ofBits 0)))) [])] ∧
      (∀ x ∈ e.numbers, x.IsFinite) ∧ e.text = "-(-0)-(-(-0))" ∧
      ∃ u, Expr.parse "-(-0)-(-(-0))".toList = .ok u ∧ u.reduce = e.reduce ∧
        u.operationCount = 1 ∧ u.text = "-(-0)-(-(-0))" ∧ parse "-(-0)-(-(-0))" = .ok u := by
  refine ⟨_, rfl, ?finite, by rfl, ?_⟩
  case finite => decide
  obtain ⟨u, hu, hreduce, hcount, htext, hparse, -⟩ :=
    parse_text_canonical (e := chain (negate (number (.ofBits 0x8000000000000000)))
      [(.subtract, chain (negate (negate (number (.ofBits 0)))) [])]) (by decide)
  exact ⟨u, hu, hreduce, hcount, htext, hparse (by decide)⟩

end Calculator
