import Calculator.Proofs.Mapping
import Calculator.Proofs.Nested
import Calculator.Proofs.OnePlace

/-!
# The trees that texts are read as

Not every tree has a text that is read as that tree.  The trees that the calculator makes do: they
are canonical, their numbers are finite, and their groups are not nested deeper than parentheses may
be.  This is `IsReadable`.

* `Pass.isReadable` — every pass preserves it, each of its three parts by itself.
* `isReadable_of_isExpr` — reading a text that passes the checks gives such a tree, if its literals
  have values.
-/

set_option autoImplicit false

namespace Calculator
namespace Expr

/-- The tree is one that a text can be read as. -/
structure IsReadable (e : Expr Binary64) : Prop where
  canonical : e.IsCanonical
  finite : ∀ x ∈ e.numbers, x.IsFinite
  depth : e.groupDepth ≤ nestingLimit

/-! ## The shape after a pass -/

theorem isChain_numberLink {rest : List (Operator × Binary64)} :
    ∀ link ∈ rest.map numberLink, link.2.isChain = false := by
  intro link hl
  obtain ⟨link, -, rfl⟩ := List.mem_map.1 hl
  rfl

theorem isCanonical_numberLink {rest : List (Operator × Binary64)} :
    ∀ link ∈ rest.map numberLink, link.2.IsCanonical := by
  intro link hl
  obtain ⟨link, -, rfl⟩ := List.mem_map.1 hl
  exact .number link.2

theorem isCanonical_ofNumbers (numbers : Binary64 × List (Operator × Binary64)) :
    (ofNumbers numbers).IsCanonical :=
  .ofChain (.number _) isCanonical_numberLink rfl isChain_numberLink

/-- A pass makes no chain of what was none. -/
theorem Pass.isChain_eq_false {e next : Expr Binary64} (h : Pass e next)
    (hchain : e.isChain = false) : next.isChain = false := by
  cases h with
  | groupNumber | groupFinished | group | negateNumber | negateFinished | negate => rfl
  | first | operand | lone | apply => cases hchain

/-- A pass inside of a group leaves the group, or a number. -/
theorem Pass.exists_group {inner next : Expr Binary64} (h : Pass (Expr.group inner) next)
    (unfinished : next.asNumber? = none) : ∃ next', next = Expr.group next' := by
  cases h with
  | groupNumber | groupFinished => cases unfinished
  | group h _ => exact ⟨_, rfl⟩

/-- **A pass keeps the canonical shape.** -/
theorem Pass.isCanonical {e next : Expr Binary64} (h : Pass e next) (hc : e.IsCanonical) :
    next.IsCanonical := by
  induction h with
  | groupNumber | groupFinished | negateNumber | negateFinished | lone => exact .number _
  | group h _ ih => exact .group (ih (isCanonical_group_iff.1 hc))
  | negate h unfinished ih =>
    obtain ⟨inner, rfl, hinner⟩ := isCanonical_negate_iff.1 hc
    obtain ⟨next', rfl⟩ := h.exists_group unfinished
    exact .negate (isCanonical_group_iff.1 (ih (.group hinner)))
  | first h ih =>
    obtain ⟨ne, ⟨hfirst, flat⟩, hrest⟩ := isCanonical_chain_iff.1 hc
    exact isCanonical_chain_iff.2 ⟨ne, ⟨ih hfirst, h.isChain_eq_false flat⟩, hrest⟩
  | operand h ih =>
    obtain ⟨-, hfirst, hrest⟩ := isCanonical_chain_iff.1 hc
    refine isCanonical_chain_iff.2 ⟨by simp, hfirst, fun link hl => ?_⟩
    rw [List.mem_append, List.mem_cons] at hl
    rcases hl with hl | rfl | hl
    · exact hrest link (List.mem_append_left _ hl)
    · obtain ⟨hoperand, flat⟩ := hrest _ (List.mem_append_right _ (.head _))
      exact ⟨ih hoperand, h.isChain_eq_false flat⟩
    · exact hrest link (List.mem_append_right _ (.tail _ hl))
  | apply => exact isCanonical_ofNumbers _

/-! ## The numbers after a pass -/

/-- **A pass keeps finite numbers finite.** -/
theorem Pass.isFinite {e next : Expr Binary64} (h : Pass e next)
    (hf : ∀ x ∈ e.numbers, x.IsFinite) : ∀ x ∈ next.numbers, x.IsFinite :=
  h.changesOnePlace.isFinite hf

/-! ## The depth after a pass -/

theorem groupDepthRest_map_numberLink (rest : List (Operator × Binary64)) :
    groupDepthRest (rest.map numberLink) = 0 := by
  induction rest with
  | nil => rfl
  | cons link rest ih => rw [List.map_cons, numberLink, groupDepthRest, ih]; rfl

theorem groupDepth_ofNumbers (numbers : Binary64 × List (Operator × Binary64)) :
    (ofNumbers numbers).groupDepth = 0 := by
  rw [ofNumbers, groupDepth_ofChain, groupDepthRest_map_numberLink]
  rfl

/-- **A pass makes nothing deeper.** -/
theorem Pass.groupDepth_le {e next : Expr Binary64} (h : Pass e next) :
    next.groupDepth ≤ e.groupDepth := by
  induction h with
  | groupNumber | groupFinished | negateNumber | negateFinished | lone => exact Nat.zero_le _
  | group h _ ih => exact Nat.succ_le_succ ih
  | negate h _ ih => exact ih
  | first h ih =>
    rw [groupDepth, groupDepth]
    omega
  | operand h ih =>
    simp only [groupDepth, groupDepthRest_append, groupDepthRest]
    omega
  | apply =>
    rw [groupDepth_ofNumbers]
    exact Nat.zero_le _

/-- **A pass makes a readable tree of a readable one.** -/
theorem Pass.isReadable {e next : Expr Binary64} (h : Pass e next) (he : e.IsReadable) :
    next.IsReadable where
  canonical := h.isCanonical he.canonical
  finite := h.isFinite he.finite
  depth := Nat.le_trans h.groupDepth_le he.depth

/-! ## The shape after reading -/

section Reading

open Grammar

mutual

theorem isCanonical_of_isOperand {position : Nat} {text : List Char} {e : Expr Literal} :
    IsOperand position text e → e.IsCanonical ∧ e.isChain = false
  | .run _ => ⟨.number _, rfl⟩
  | .negatedRun _ => ⟨.number _, rfl⟩
  | .group h => ⟨.group (isCanonical_of_isExpr h), rfl⟩
  | .negatedGroup h => ⟨.negate (isCanonical_of_isExpr h), rfl⟩

theorem isCanonical_of_isRest {position : Nat} {text : List Char}
    {rest : List (Operator × Expr Literal)} :
    IsRest position text rest → ∀ link ∈ rest, link.2.IsCanonical ∧ link.2.isChain = false
  | .nil, _, hl => nomatch hl
  | .cons h _, _, .head _ => isCanonical_of_isOperand h
  | .cons _ hrest, link, .tail _ hl => isCanonical_of_isRest hrest link hl

/-- **A text is only written for canonical trees.** -/
theorem isCanonical_of_isExpr {position : Nat} {text : List Char} {e : Expr Literal} :
    IsExpr position text e → e.IsCanonical
  | .intro h hrest =>
    .ofChain (isCanonical_of_isOperand h).1 (fun link hl => (isCanonical_of_isRest hrest link hl).1)
      (isCanonical_of_isOperand h).2 fun link hl => (isCanonical_of_isRest hrest link hl).2

end

theorem isFinite_of_toBinary64? {d : Decimal} {value : Binary64}
    (h : d.toBinary64? = some value) : value.IsFinite := by
  rw [Decimal.toBinary64?] at h
  split at h
  · cases h
    assumption
  · cases h

/-- The value of a literal is finite, whatever its sign. -/
theorem isFinite_of_value {literal : Literal} {value : Binary64}
    (h : literal.value = .ok value) : value.IsFinite := by
  rw [Literal.value] at h
  split at h
  · cases h
  split at h
  · cases h
  · rename_i hb
    cases h
    split
    · rw [Binary64.isFinite_neg]
      exact isFinite_of_toBinary64? hb
    · exact isFinite_of_toBinary64? hb

/-- **A text whose parentheses pass the check is read as a readable tree**, if its literals have
values. -/
theorem isReadable_of_isExpr {text : List Char} {literals : Expr Literal} {e : Expr Binary64}
    (h : IsExpr 0 text literals) (hvalue : literals.mapM Literal.value = .ok e)
    (hcheck : Normal.checkParentheses text = .ok ()) : e.IsReadable where
  canonical := (isCanonical_of_isExpr h).of_mapM hvalue
  finite := forall_numbers_of_mapM (fun _ _ => isFinite_of_value) literals e hvalue
  depth := by
    rw [groupDepth_of_mapM literals e hvalue]
    exact Normal.groupDepth_le_of_checkParentheses h hcheck

end Reading

end Expr
end Calculator
