import Calculator.Expr.Step

/-!
# How many passes an expression takes

Counting operators is not enough to bound step-by-step evaluation: a pass may be spent on
parentheses around a number, on a sign before one, or on a chain without operators.  `passCount`
counts those passes as well.

* `advance_eq_finished_iff` — nothing is left to do exactly on a number.
* `passCount_of_advance` — a pass lowers the count by exactly one, whatever it does.
-/

set_option autoImplicit false

namespace Calculator
namespace Expr

mutual

/-- The number of passes it takes to turn an expression into a number. -/
def passCount : Expr Binary64 → Nat
  | number _ => 0
  | negate inner => max 1 inner.passCount
  | group inner => max 1 inner.passCount
  | chain first rest => first.passCount + passCountRest rest + max 1 rest.length

/-- The passes that the operands in the rest of a chain take. -/
def passCountRest : List (Operator × Expr Binary64) → Nat
  | [] => 0
  | (_, operand) :: rest => operand.passCount + passCountRest rest

end

@[simp]
theorem passCount_number (value : Binary64) : (number value).passCount = 0 := by
  simp [passCount]

theorem passCountRest_append (xs ys : List (Operator × Expr Binary64)) :
    passCountRest (xs ++ ys) = passCountRest xs + passCountRest ys := by
  induction xs with
  | nil => simp [passCountRest]
  | cons x xs ih => simp [passCountRest, ih, Nat.add_assoc]

theorem passCountRest_map_numberLink (links : List (Operator × Binary64)) :
    passCountRest (links.map numberLink) = 0 := by
  induction links with
  | nil => simp [passCountRest]
  | cons x xs ih => simp [passCountRest, numberLink, ih]

/-! ## Applying an operator -/

theorem length_unwind {γ : Type} (before : List (γ × Operator)) (operand : γ)
    (rest : List (Operator × γ)) :
    (unwind before operand rest).2.length = before.length + rest.length := by
  induction before generalizing operand rest with
  | nil => simp [unwind]
  | cons x before ih => simp [unwind, ih]; omega

/-- An application takes one link out of a chain. -/
theorem length_of_applyFirst {chosen : Operator → Bool} {rest : List (Operator × Binary64)}
    (h : ∃ link ∈ rest, chosen link.1 = true) {before : List (Binary64 × Operator)}
    {left : Binary64} {result : Binary64 × List (Operator × Binary64)}
    (ok : applyFirst chosen before left rest = .ok result) :
    result.2.length + 1 = before.length + rest.length := by
  induction rest generalizing before left with
  | nil => simp at h
  | cons link rest ih =>
    obtain ⟨operator, right⟩ := link
    unfold applyFirst at ok
    split at ok
    · cases hv : operator.apply left right with
      | error e => simp [hv, Except.map] at ok
      | ok value =>
        simp only [hv, Except.map, Except.ok.injEq] at ok
        simp [← ok, length_unwind]
        omega
    · rename_i hc
      have h' : ∃ link ∈ rest, chosen link.1 = true := by simpa [hc] using h
      have := ih h' ok
      simp only [List.length_cons] at this ⊢
      omega

theorem le_highestTier_foldl (rest : List (Operator × Binary64)) (tier : Nat) :
    tier ≤ rest.foldl (fun tier link => max tier link.1.precedence) tier := by
  induction rest generalizing tier with
  | nil => simp
  | cons x xs ih => exact Nat.le_trans (Nat.le_max_left _ _) (ih _)

theorem highestTier_foldl_attained (rest : List (Operator × Binary64)) (tier : Nat) :
    rest.foldl (fun tier link => max tier link.1.precedence) tier = tier ∨
      ∃ link ∈ rest,
        rest.foldl (fun tier link => max tier link.1.precedence) tier = link.1.precedence := by
  induction rest generalizing tier with
  | nil => simp
  | cons x xs ih =>
    rcases ih (max tier x.1.precedence) with h | ⟨link, hmem, h⟩
    · rcases Nat.le_total tier x.1.precedence with hle | hle
      · exact .inr ⟨x, by simp, by simpa [Nat.max_eq_right hle] using h⟩
      · exact .inl (by simpa [Nat.max_eq_left hle] using h)
    · exact .inr ⟨link, by simp [hmem], by simpa using h⟩

/-- Some operator of a chain is of the highest tier. -/
theorem exists_highestTier {rest : List (Operator × Binary64)} (h : rest ≠ []) :
    ∃ link ∈ rest, decide (highestTier rest ≤ link.1.precedence) = true := by
  rcases highestTier_foldl_attained rest 0 with hz | ⟨link, hmem, heq⟩
  · cases rest with
    | nil => exact absurd rfl h
    | cons x xs => exact ⟨x, by simp, by simp [highestTier, hz]⟩
  · exact ⟨link, hmem, by simp [highestTier, heq]⟩

theorem passCount_ofChain_numbers (first : Binary64) (rest : List (Operator × Binary64)) :
    (ofChain (number first) (rest.map numberLink)).passCount = rest.length := by
  cases rest with
  | nil => simp [ofChain]
  | cons link rest =>
    have h := passCountRest_map_numberLink (link :: rest)
    simp only [List.map_cons] at h ⊢
    simp [ofChain, passCount, h]

theorem passCount_of_applyNext {first : Binary64} {rest : List (Operator × Binary64)}
    {next : Expr Binary64} (ok : applyNext first rest = .ok next) :
    next.passCount + 1 = max 1 rest.length := by
  unfold applyNext at ok
  cases hr : applyFirst (fun operator => highestTier rest ≤ operator.precedence) [] first rest with
  | error e => simp [hr, Except.map] at ok
  | ok result =>
    simp only [hr, Except.map, Except.ok.injEq] at ok
    rw [← ok, passCount_ofChain_numbers]
    cases rest with
    | nil => simp [applyFirst, unwind] at hr; simp [← hr]
    | cons link rest =>
      have := length_of_applyFirst (exists_highestTier (List.cons_ne_nil _ _)) hr
      simp only [List.length_nil, List.length_cons] at this ⊢
      omega

/-! ## A pass -/

theorem group_ne_finished (p : Progress) (value : Binary64) : p.group ≠ .finished value := by
  cases p with
  | finished => simp [Progress.group]
  | moved next => cases next <;> simp [Progress.group]

theorem negate_ne_finished (p : Progress) (value : Binary64) : p.negate ≠ .finished value := by
  cases p with
  | finished => simp [Progress.negate]
  | moved next => cases next <;> simp [Progress.negate]

/-- **A pass finds nothing to do exactly on a number.** -/
theorem advance_eq_finished_iff {e : Expr Binary64} {value : Binary64} :
    advance e = .ok (.finished value) ↔ e = number value := by
  constructor
  · intro h
    cases e with
    | number v => simpa [advance] using h
    | negate inner =>
      simp only [advance] at h
      cases hi : advance inner <;> simp [hi, Except.map, negate_ne_finished] at h
    | group inner =>
      simp only [advance] at h
      cases hi : advance inner <;> simp [hi, Except.map, group_ne_finished] at h
    | chain first rest =>
      simp only [advance] at h
      cases hf : advance first with
      | error e => simp [hf, bind, Except.bind] at h
      | ok p =>
        cases p with
        | moved next => simp [hf, bind, Except.bind, pure, Except.pure] at h
        | finished v =>
          simp only [hf, bind, Except.bind] at h
          cases hr : advanceRest v [] rest <;> simp [hr, Except.map] at h
  · rintro rfl
    simp [advance]

theorem passCount_eq_zero_iff {e : Expr Binary64} :
    e.passCount = 0 ↔ ∃ value, e = number value := by
  constructor
  · intro h
    cases e with
    | number value => exact ⟨value, rfl⟩
    | negate inner => simp [passCount] at h
    | group inner => simp [passCount] at h
    | chain first rest => simp [passCount] at h
  · rintro ⟨value, rfl⟩
    simp

theorem passCount_of_group {p : Progress} {next inner : Expr Binary64}
    (h : p.group = .moved next) (hf : ∀ value, p = .finished value → inner = number value)
    (hm : ∀ e, p = .moved e → e.passCount + 1 = inner.passCount) :
    next.passCount + 1 = max 1 inner.passCount := by
  cases p with
  | finished value =>
    simp only [Progress.group, Progress.moved.injEq] at h
    simp [← h, hf value rfl]
  | moved e =>
    have := hm e rfl
    cases e <;> simp only [Progress.group, Progress.moved.injEq] at h <;>
      simp only [← h, passCount] at this ⊢ <;> omega

theorem passCount_of_negate {p : Progress} {next inner : Expr Binary64}
    (h : p.negate = .moved next) (hf : ∀ value, p = .finished value → inner = number value)
    (hm : ∀ e, p = .moved e → e.passCount + 1 = inner.passCount) :
    next.passCount + 1 = max 1 inner.passCount := by
  cases p with
  | finished value =>
    simp only [Progress.negate, Progress.moved.injEq] at h
    simp [← h, hf value rfl]
  | moved e =>
    have := hm e rfl
    cases e <;> simp only [Progress.negate, Progress.moved.injEq] at h <;>
      simp only [← h, passCount] at this ⊢ <;> omega

theorem passCount_of_advanceRest {rest : List (Operator × Expr Binary64)}
    (ih : ∀ link ∈ rest, ∀ next, advance link.2 = .ok (.moved next) →
      next.passCount + 1 = link.2.passCount)
    {first : Binary64} {done : List (Operator × Binary64)} {next : Expr Binary64}
    (ok : advanceRest first done rest = .ok next) :
    next.passCount + 1 = passCountRest rest + max 1 (done.length + rest.length) := by
  induction rest generalizing done with
  | nil =>
    simp only [advanceRest] at ok
    simpa [passCountRest] using passCount_of_applyNext ok
  | cons link rest ihr =>
    obtain ⟨operator, operand⟩ := link
    simp only [advanceRest] at ok
    cases ho : advance operand with
    | error e => simp [ho, bind, Except.bind] at ok
    | ok p =>
      cases p with
      | finished value =>
        simp only [ho, bind, Except.bind] at ok
        have := ihr (fun link hl => ih link (by simp [hl])) ok
        have hv := advance_eq_finished_iff.1 ho
        simp only [List.length_cons] at this ⊢
        simp only [passCountRest, hv, passCount_number]
        omega
      | moved moved =>
        simp only [ho, bind, Except.bind, pure, Except.pure, Except.ok.injEq] at ok
        have := ih (operator, operand) (by simp) moved ho
        simp only at this
        simp only [← ok, passCount, List.reverseAux_eq, passCountRest_append, ← List.map_reverse,
          passCountRest_map_numberLink, passCountRest, List.length_append, List.length_map,
          List.length_reverse, List.length_cons]
        omega

/-- **A pass lowers the count by exactly one.** -/
theorem passCount_of_advance (e : Expr Binary64) :
    ∀ next, advance e = .ok (.moved next) → next.passCount + 1 = e.passCount := by
  induction e using Expr.induction with
  | number value => intro next h; simp [advance] at h
  | negate inner ih =>
    intro next h
    simp only [advance] at h
    cases hi : advance inner with
    | error e => simp [hi, Except.map] at h
    | ok p =>
      simp only [hi, Except.map, Except.ok.injEq] at h
      rw [passCount]
      exact passCount_of_negate h (fun v hp => advance_eq_finished_iff.1 (hp ▸ hi))
        (fun e hp => ih e (hp ▸ hi))
  | group inner ih =>
    intro next h
    simp only [advance] at h
    cases hi : advance inner with
    | error e => simp [hi, Except.map] at h
    | ok p =>
      simp only [hi, Except.map, Except.ok.injEq] at h
      rw [passCount]
      exact passCount_of_group h (fun v hp => advance_eq_finished_iff.1 (hp ▸ hi))
        (fun e hp => ih e (hp ▸ hi))
  | chain first rest ihf ihr =>
    intro next h
    simp only [advance] at h
    cases hf : advance first with
    | error e => simp [hf, bind, Except.bind] at h
    | ok p =>
      cases p with
      | moved moved =>
        simp only [hf, bind, Except.bind, pure, Except.pure, Except.ok.injEq,
          Progress.moved.injEq] at h
        have := ihf moved hf
        simp only [← h, passCount]
        omega
      | finished value =>
        simp only [hf, bind, Except.bind] at h
        cases hr : advanceRest value [] rest with
        | error e => simp [hr, Except.map] at h
        | ok result =>
          simp only [hr, Except.map, Except.ok.injEq, Progress.moved.injEq] at h
          subst h
          have := passCount_of_advanceRest ihr hr
          simp only [passCount, advance_eq_finished_iff.1 hf, List.length_nil] at this ⊢
          omega

end Expr
end Calculator
