import Calculator.Expr.Shape
import Calculator.Proofs.Mapping
import Calculator.Proofs.Reading
import Calculator.Proofs.Value
import Mathlib.Data.List.Forall2

/-!
# Replacing a group in a text

The reader does not look into a group once it has been read.  So where a text has one expression in
parentheses, another can be written instead, and all that changes in the tree is what is in the
group and the places of the literals.

* `Replaces e e'` is said of trees of literals: `e'` has values wherever `e` has, with them it has
  the value or the error of `e`, and it is no deeper.  All ways to build a tree preserve it
  (`Replaces.group`, `Replaces.negate`, `Replaces.ofChain`), so evaluation depends on a part of a
  tree only through the value of the part.
* `Simulates.read?`, `Simulates.finish` — two machines in states whose trees are replaced by one
  another read the same text alike, wherever it begins.
* `exists_replaces_of_group` — so a text stays one of an expression when what stands in a pair of
  parentheses is replaced.
-/

set_option autoImplicit false

namespace Calculator
namespace Expr

/-! ## Trees that may stand for others -/

/-- A tree of literals may be written in the place of another. -/
structure Replaces (e e' : Expr Literal) : Prop where
  /-- It is no deeper. -/
  groupDepth_le : e'.groupDepth ≤ e.groupDepth
  /-- Its literals have values if those of the other have, and with these values it has the same
  value as the other, or the same error in its place. -/
  exists_value : ∀ t, e.mapM Literal.value = .ok t →
    ∃ t', e'.mapM Literal.value = .ok t' ∧ t'.reduce = t.reduce

/-- The links of chains that may stand for one another have the same operator. -/
def ReplacesLink (link link' : Operator × Expr Literal) : Prop :=
  link'.1 = link.1 ∧ Replaces link.2 link'.2

/-- The same for operands with the operator after them. -/
def ReplacesBefore (link link' : Expr Literal × Operator) : Prop :=
  link'.2 = link.2 ∧ Replaces link.1 link'.1

theorem Replaces.refl (e : Expr Literal) : Replaces e e :=
  ⟨Nat.le_refl _, fun t ht => ⟨t, ht, rfl⟩⟩

theorem Replaces.trans {e e' e'' : Expr Literal} (h : Replaces e e') (h' : Replaces e' e'') :
    Replaces e e'' := by
  refine ⟨Nat.le_trans h'.groupDepth_le h.groupDepth_le, fun t ht => ?_⟩
  obtain ⟨t', ht', hreduce⟩ := h.exists_value t ht
  obtain ⟨t'', ht'', hreduce'⟩ := h'.exists_value t' ht'
  exact ⟨t'', ht'', hreduce'.trans hreduce⟩

/-- Nothing but the outcome and the depth of a tree matters. -/
theorem replaces_of_reduce_eq {e e' : Expr Literal} {t t' : Expr Binary64}
    (ht : e.mapM Literal.value = .ok t) (ht' : e'.mapM Literal.value = .ok t')
    (hreduce : t'.reduce = t.reduce) (hdepth : t'.groupDepth ≤ t.groupDepth) : Replaces e e' := by
  rw [groupDepth_of_mapM e t ht, groupDepth_of_mapM e' t' ht'] at hdepth
  refine ⟨hdepth, fun s hs => ⟨t', ht', ?_⟩⟩
  obtain rfl : t = s := Except.ok.inj (ht.symm.trans hs)
  exact hreduce

theorem forall₂_replacesBefore_refl (before : List (Expr Literal × Operator)) :
    List.Forall₂ ReplacesBefore before before :=
  List.forall₂_same.2 fun link _ => ⟨rfl, .refl link.1⟩

/-- The place of a literal does not matter. -/
theorem Replaces.number (negative : Bool) (run : List Char) (position position' : Nat) :
    Replaces (.number ⟨negative, run, position⟩) (.number ⟨negative, run, position'⟩) := by
  refine ⟨Nat.le_refl _, fun t ht => ?_⟩
  obtain ⟨value, hvalue, rfl⟩ := mapM_number_eq_ok_iff.1 ht
  refine ⟨Expr.number value, mapM_number_eq_ok_iff.2 ⟨value, ?_, rfl⟩, rfl⟩
  rw [Literal.value] at hvalue ⊢
  cases hd : Decimal.ofNumeral? run with
  | none => simp [hd] at hvalue
  | some decimal =>
    cases hb : decimal.toBinary64? with
    | none => simp [hd, hb] at hvalue
    | some x => simpa [hd, hb] using hvalue

theorem Replaces.group {e e' : Expr Literal} (h : Replaces e e') :
    Replaces (.group e) (.group e') := by
  refine ⟨Nat.succ_le_succ h.groupDepth_le, fun t ht => ?_⟩
  obtain ⟨inner, hinner, rfl⟩ := mapM_group_eq_ok_iff.1 ht
  obtain ⟨inner', hinner', hreduce⟩ := h.exists_value inner hinner
  exact ⟨Expr.group inner', mapM_group_eq_ok_iff.2 ⟨inner', hinner', rfl⟩, by
    rw [reduce, reduce, hreduce]⟩

theorem Replaces.negate {e e' : Expr Literal} (h : Replaces e e') :
    Replaces (.negate e) (.negate e') := by
  refine ⟨h.groupDepth_le, fun t ht => ?_⟩
  obtain ⟨inner, hinner, rfl⟩ := mapM_negate_eq_ok_iff.1 ht
  obtain ⟨inner', hinner', hreduce⟩ := h.exists_value inner hinner
  exact ⟨Expr.negate inner', mapM_negate_eq_ok_iff.2 ⟨inner', hinner', rfl⟩, by
    rw [reduce, reduce, hreduce]⟩

theorem groupDepthRest_le_of_replaces {rest rest' : List (Operator × Expr Literal)}
    (h : List.Forall₂ ReplacesLink rest rest') : groupDepthRest rest' ≤ groupDepthRest rest := by
  induction h with
  | nil => exact Nat.le_refl _
  | cons hlink _ ih =>
    have hoperand := hlink.2.groupDepth_le
    rw [groupDepthRest, groupDepthRest]
    omega

/-- The operands in the rest of a chain count only through their values. -/
theorem exists_mappedRest_of_replaces {rest rest' : List (Operator × Expr Literal)}
    (h : List.Forall₂ ReplacesLink rest rest') :
    ∀ t, IsMappedRest Literal.value rest t → ∃ t', IsMappedRest Literal.value rest' t' ∧
      ∀ running, reduceRest running t' = reduceRest running t := by
  induction h with
  | nil =>
    rintro t ⟨⟩
    exact ⟨[], .nil, fun _ => rfl⟩
  | @cons link link' rest rest' hlink _ ih =>
    obtain ⟨operator, operand⟩ := link
    obtain ⟨operator', operand'⟩ := link'
    obtain ⟨rfl, hoperand⟩ : operator' = operator ∧ Replaces operand operand' := hlink
    rintro t (_ | ⟨hvalue, hrest⟩)
    obtain ⟨value', hvalue', hreduce⟩ := hoperand.exists_value _ hvalue
    obtain ⟨t', ht', hreduceRest⟩ := ih _ hrest
    refine ⟨(operator', value') :: t', .cons hvalue' ht', fun running => ?_⟩
    simp only [reduceRest_cons, hreduce, hreduceRest]

theorem Replaces.ofChain {first first' : Expr Literal} {rest rest' : List (Operator × Expr Literal)}
    (h : Replaces first first') (hrest : List.Forall₂ ReplacesLink rest rest') :
    Replaces (.ofChain first rest) (.ofChain first' rest') := by
  have hdepth := groupDepthRest_le_of_replaces hrest
  have hfirst := h.groupDepth_le
  refine ⟨by rw [groupDepth_ofChain, groupDepth_ofChain]; omega, fun t ht => ?_⟩
  cases hrest with
  | nil => exact h.exists_value t ht
  | cons hlink htail =>
    obtain ⟨t₁, tail, ht₁, htail', rfl⟩ := mapM_chain_eq_ok_iff.1 ht
    obtain ⟨t₁', ht₁', hreduce⟩ := h.exists_value t₁ ht₁
    obtain ⟨tail', htail'', hreduceRest⟩ :=
      exists_mappedRest_of_replaces (.cons hlink htail) tail htail'
    refine ⟨chain t₁' tail', mapM_chain_eq_ok_iff.2 ⟨t₁', tail', ht₁', htail'', rfl⟩, ?_⟩
    simp only [reduce_chain, hreduce, hreduceRest]

/-- A chain that is held open at one operand is put together alike. -/
theorem replaces_unwind {before before' : List (Expr Literal × Operator)}
    (hbefore : List.Forall₂ ReplacesBefore before before') {operand operand' : Expr Literal}
    (hoperand : Replaces operand operand') {rest rest' : List (Operator × Expr Literal)}
    (hrest : List.Forall₂ ReplacesLink rest rest') :
    Replaces (unwind before operand rest).1 (unwind before' operand' rest').1 ∧
      List.Forall₂ ReplacesLink (unwind before operand rest).2
        (unwind before' operand' rest').2 := by
  induction hbefore generalizing operand operand' rest rest' with
  | nil => exact ⟨hoperand, hrest⟩
  | cons hlink _ ih => exact ih hlink.2 (.cons ⟨hlink.1, hoperand⟩ hrest)

/-! ## Machines in states of replaced trees -/

namespace Pushdown

theorem replaces_close {before before' : List (Expr Literal × Operator)}
    (hbefore : List.Forall₂ ReplacesBefore before before') {last last' : Expr Literal}
    (hlast : Replaces last last') : Replaces (close before last) (close before' last') := by
  obtain ⟨hfirst, hrest⟩ := replaces_unwind hbefore hlast .nil
  exact hfirst.ofChain hrest

/-- What has been read of two operands of which the second may stand for the first. -/
inductive ReplacesOperand : Operand → Operand → Prop
  | awaited (negated : Bool) : ReplacesOperand (.awaited negated) (.awaited negated)
  | run (negated : Bool) (reversed : List Char) (position position' : Nat) :
      ReplacesOperand (.run negated reversed position) (.run negated reversed position')
  | complete {e e' : Expr Literal} (h : Replaces e e') :
      ReplacesOperand (.complete e) (.complete e')

/-- What is in a group may be replaced, with or without a minus sign before the group. -/
theorem replacesOperand_group (negated : Bool) {e e' : Expr Literal} (h : Replaces e e') :
    ReplacesOperand (.complete (if negated then negate (group e) else group e))
      (.complete (if negated then negate (group e') else group e')) := by
  cases negated with
  | false => exact .complete h.group
  | true => exact .complete h.group.negate

/-- Two chains that were interrupted by a parenthesis, the second of which may stand for the
first. -/
def ReplacesFrame (frame frame' : Frame) : Prop :=
  frame'.negated = frame.negated ∧ List.Forall₂ ReplacesBefore frame.before frame'.before

/-- What one machine has read may stand for what another has read, tree by tree. -/
structure Simulates (s s' : Pushdown) : Prop where
  /-- The interrupted chains go on in the same way. -/
  outer : List.Forall₂ ReplacesFrame s.outer s'.outer
  /-- The current chain has the same operators so far. -/
  before : List.Forall₂ ReplacesBefore s.before s'.before
  /-- The current operand is read as far. -/
  operand : ReplacesOperand s.operand s'.operand

theorem simulates_refl (outer : List Frame) (before : List (Expr Literal × Operator))
    {operand operand' : Operand} (h : ReplacesOperand operand operand') :
    Simulates ⟨outer, before, operand⟩ ⟨outer, before, operand'⟩ where
  outer := List.forall₂_same.2 fun frame _ => ⟨rfl, forall₂_replacesBefore_refl frame.before⟩
  before := forall₂_replacesBefore_refl before
  operand := h

variable {s s' next : Pushdown} {e : Expr Literal} {c : Char}

theorem Simulates.operand? (h : Simulates s s') (he : s.operand? = some e) :
    ∃ e', s'.operand? = some e' ∧ Replaces e e' := by
  obtain ⟨outer, before, operand⟩ := s
  obtain ⟨outer', before', operand'⟩ := s'
  obtain ⟨-, -, hoperand⟩ := h
  cases hoperand with
  | awaited negated => cases he
  | run negated reversed position position' =>
    obtain rfl := Option.some.inj he
    exact ⟨_, rfl, .number negated reversed.reverse position position'⟩
  | @complete operand operand' hcomplete =>
    obtain rfl := Option.some.inj he
    exact ⟨operand', rfl, hcomplete⟩

theorem Simulates.result? (h : Simulates s s') (he : s.result? = some e) :
    ∃ e', s'.result? = some e' ∧ Replaces e e' := by
  obtain ⟨outer, before, operand⟩ := s
  obtain ⟨outer', before', operand'⟩ := s'
  cases h.outer with
  | nil =>
    obtain ⟨last, hlast, rfl⟩ := Option.map_eq_some_iff.1 he
    obtain ⟨last', hlast', hreplaces⟩ := h.operand? hlast
    exact ⟨_, Option.map_eq_some_iff.2 ⟨last', hlast', rfl⟩, replaces_close h.before hreplaces⟩
  | cons => cases he

/-- What follows an operand is read alike after an operand that may stand for it. -/
theorem Simulates.afterOperand? (h : Simulates s s') {e' : Expr Literal} (he : Replaces e e')
    (hnext : s.afterOperand? e c = some next) :
    ∃ next', s'.afterOperand? e' c = some next' ∧ Simulates next next' := by
  obtain ⟨outer, before, operand⟩ := s
  obtain ⟨outer', before', operand'⟩ := s'
  obtain ⟨houter, hbefore, -⟩ := h
  cases hc : Operator.ofSymbol? c with
  | some operator =>
    rw [Pushdown.afterOperand?, hc] at hnext
    obtain rfl := Option.some.inj hnext
    rw [Pushdown.afterOperand?, hc]
    exact ⟨_, rfl, houter, .cons ⟨rfl, he⟩ hbefore, .awaited false⟩
  | none =>
    by_cases hclose : c = ')'
    · subst hclose
      cases houter with
      | nil => cases hnext
      | @cons frame frame' outer outer' hframe houter =>
        rw [afterOperand?_close] at hnext
        obtain rfl := Option.some.inj hnext
        refine ⟨_, afterOperand?_close frame' outer' before' operand' e', houter, hframe.2, ?_⟩
        rw [hframe.1]
        exact replacesOperand_group frame.negated (replaces_close hbefore he)
    · rw [Pushdown.afterOperand?, hc] at hnext
      simp [hclose] at hnext

/-- **One step**: two machines read a character alike, wherever it stands. -/
theorem Simulates.read? (h : Simulates s s') {position : Nat}
    (hnext : s.read? position c = some next) (position' : Nat) :
    ∃ next', s'.read? position' c = some next' ∧ Simulates next next' := by
  by_cases hc : isNumeralChar c = true
  · obtain ⟨outer, before, operand⟩ := s
    obtain ⟨outer', before', operand'⟩ := s'
    obtain ⟨houter, hbefore, hoperand⟩ := h
    cases hoperand with
    | awaited negated =>
      simp only [Pushdown.read?, if_pos hc, Option.some.injEq] at hnext ⊢
      exact ⟨_, rfl, hnext ▸ ⟨houter, hbefore, .run negated [c] position position'⟩⟩
    | run negated reversed start start' =>
      simp only [Pushdown.read?, if_pos hc, Option.some.injEq] at hnext ⊢
      exact ⟨_, rfl, hnext ▸ ⟨houter, hbefore, .run negated (c :: reversed) start start'⟩⟩
    | complete hcomplete =>
      exact Simulates.afterOperand? ⟨houter, hbefore, .complete hcomplete⟩ hcomplete hnext
  · have hc' : isNumeralChar c = false := by simpa using hc
    cases ho : s.operand? with
    | some e =>
      obtain ⟨e', ho', he⟩ := h.operand? ho
      rw [read?_eq_afterOperand? ho hc'] at hnext
      rw [read?_eq_afterOperand? ho' hc']
      exact h.afterOperand? he hnext
    | none =>
      obtain ⟨outer, before, operand⟩ := s
      obtain ⟨outer', before', operand'⟩ := s'
      obtain ⟨houter, hbefore, hoperand⟩ := h
      cases hoperand with
      | run | complete => cases ho
      | awaited negated =>
        simp only [Pushdown.read?, if_neg hc] at hnext ⊢
        by_cases hopen : c = '('
        · rw [if_pos hopen] at hnext ⊢
          obtain rfl := Option.some.inj hnext
          exact ⟨_, rfl, .cons ⟨rfl, hbefore⟩ houter, .nil, .awaited false⟩
        · rw [if_neg hopen] at hnext ⊢
          by_cases hminus : c = '-' ∧ negated = false
          · rw [if_pos hminus] at hnext ⊢
            obtain rfl := Option.some.inj hnext
            exact ⟨_, rfl, houter, hbefore, .awaited true⟩
          · rw [if_neg hminus] at hnext
            cases hnext

/-- **A whole run**: what one machine reads to the end, the other does too. -/
theorem Simulates.finish {rest : List Char} (h : Simulates s s') {position : Nat}
    (he : s.finish position rest = .ok e) (position' : Nat) :
    ∃ e', s'.finish position' rest = .ok e' ∧ Replaces e e' := by
  induction rest generalizing s s' position position' with
  | nil =>
    rw [Pushdown.finish] at he ⊢
    cases hr : s.result? with
    | none => simp [hr] at he
    | some last =>
      obtain ⟨last', hr', hreplaces⟩ := h.result? hr
      simp only [hr, Except.ok.injEq] at he
      simp only [hr']
      exact ⟨last', rfl, he ▸ hreplaces⟩
  | cons c rest ih =>
    rw [Pushdown.finish] at he ⊢
    cases hr : s.read? position c with
    | none => simp [hr] at he
    | some next =>
      obtain ⟨next', hr', hnext⟩ := h.read? hr position'
      simp only [hr] at he
      simp only [hr']
      exact ih hnext he (position' + 1)

/-! ## The text before a group -/

/-- A machine that reads a text to its end comes through each of its beginnings. -/
theorem exists_takes {text tail : List Char} {position : Nat}
    (h : s.finish position (text ++ tail) = .ok e) : ∃ s', Takes s position text s' := by
  induction text generalizing s position with
  | nil => exact ⟨s, .nil s position⟩
  | cons c text ih =>
    rw [List.cons_append, Pushdown.finish] at h
    cases hr : s.read? position c with
    | none => simp [hr] at h
    | some next =>
      simp only [hr] at h
      obtain ⟨s', hs'⟩ := ih h
      exact ⟨s', .cons hr hs'⟩

/-- A parenthesis is only opened where an operand is awaited. -/
theorem exists_awaited_of_read?_open {position : Nat} (h : s.read? position '(' = some next) :
    ∃ negated, s.operand = .awaited negated := by
  obtain ⟨outer, before, operand⟩ := s
  cases operand with
  | awaited negated => exact ⟨negated, rfl⟩
  | run negated reversed start => cases h
  | complete operand => cases h

end Pushdown

open Grammar Pushdown

/-! ## Texts -/

/-- A text in parentheses, with what stands to the left and to the right of them. -/
def around (left inner right : List Char) : List Char := left ++ ('(' :: (inner ++ [')']) ++ right)

/-- **What stands in a pair of parentheses can be replaced**, and the text is still one of an
expression, which may stand for the one before. -/
theorem exists_replaces_of_group {left text text' right : List Char} {inner inner' e : Expr Literal}
    (hinner : IsExpr (left.length + 1) text inner)
    (hinner' : IsExpr (left.length + 1) text' inner') (hreplaces : Replaces inner inner')
    (h : IsExpr 0 (around left text right) e) :
    ∃ e', IsExpr 0 (around left text' right) e' ∧ Replaces e e' := by
  have hrun := ofText_of_isExpr h
  rw [ofText, around] at hrun
  obtain ⟨s, htakes⟩ := exists_takes hrun
  rw [htakes, Nat.zero_add] at hrun
  -- the parenthesis is read, so the machine awaits an operand there
  obtain ⟨negated, hawaited⟩ : ∃ negated, s.operand = .awaited negated := by
    rw [List.cons_append, Pushdown.finish] at hrun
    cases hr : s.read? left.length '(' with
    | none => simp [hr] at hrun
    | some next => exact exists_awaited_of_read?_open hr
  obtain ⟨outer, before, operand⟩ := s
  obtain rfl : operand = .awaited negated := hawaited
  rw [takes_group (takes_isExpr hinner _)] at hrun
  have hsimulates : Simulates
      ⟨outer, before, .complete (if negated then negate (group inner) else group inner)⟩
      ⟨outer, before, .complete (if negated then negate (group inner') else group inner')⟩ :=
    simulates_refl outer before (replacesOperand_group negated hreplaces)
  obtain ⟨e', hrun', he'⟩ :=
    hsimulates.finish hrun (left.length + ('(' :: (text' ++ [')'])).length)
  refine ⟨e', ofText_eq_ok_iff.1 ?_, he'⟩
  rw [ofText, around, htakes, Nat.zero_add, takes_group (takes_isExpr hinner' _)]
  exact hrun'

mutual

theorem exists_isOperand_at {position : Nat} {text : List Char} {e : Expr Literal} :
    IsOperand position text e → ∀ position', ∃ e', IsOperand position' text e' ∧ Replaces e e'
  | .run h, position' => ⟨_, .run h, .number false _ _ _⟩
  | .negatedRun h, position' => ⟨_, .negatedRun h, .number true _ _ _⟩
  | .group h, position' => by
    obtain ⟨inner', hinner', hreplaces⟩ := exists_isExpr_at h (position' + 1)
    exact ⟨_, .group hinner', hreplaces.group⟩
  | .negatedGroup h, position' => by
    obtain ⟨inner', hinner', hreplaces⟩ := exists_isExpr_at h (position' + 2)
    exact ⟨_, .negatedGroup hinner', hreplaces.group.negate⟩

theorem exists_isRest_at {position : Nat} {text : List Char}
    {rest : List (Operator × Expr Literal)} :
    IsRest position text rest → ∀ position', ∃ rest', IsRest position' text rest' ∧
      List.Forall₂ ReplacesLink rest rest'
  | .nil, position' => ⟨[], .nil, .nil⟩
  | .cons h hrest, position' => by
    obtain ⟨operand', hoperand', hreplaces⟩ := exists_isOperand_at h (position' + 1)
    obtain ⟨rest', hrest', hlinks⟩ := exists_isRest_at hrest _
    exact ⟨_, .cons hoperand' hrest', .cons ⟨rfl, hreplaces⟩ hlinks⟩

/-- **An expression may be written anywhere**: only the places of its literals change. -/
theorem exists_isExpr_at {position : Nat} {text : List Char} {e : Expr Literal} :
    IsExpr position text e → ∀ position', ∃ e', IsExpr position' text e' ∧ Replaces e e'
  | .intro h hrest, position' => by
    obtain ⟨first', hfirst', hreplaces⟩ := exists_isOperand_at h position'
    obtain ⟨rest', hrest', hlinks⟩ := exists_isRest_at hrest _
    exact ⟨_, .intro hfirst' hrest', hreplaces.ofChain hlinks⟩

end

/-- Written at the beginning of a text, an expression may stand for what it is elsewhere. -/
theorem replaces_of_isExpr {position : Nat} {text : List Char} {e e' : Expr Literal}
    (h : IsExpr position text e) (h' : IsExpr 0 text e') : Replaces e e' := by
  obtain ⟨moved, hmoved, hreplaces⟩ := exists_isExpr_at h 0
  have heq : moved = e' :=
    Except.ok.inj ((ofText_of_isExpr hmoved).symm.trans (ofText_of_isExpr h'))
  rwa [heq] at hreplaces

end Expr
end Calculator
