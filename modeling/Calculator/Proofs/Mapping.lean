import Calculator.EvalError
import Calculator.Expr.Numbers
import Calculator.Expr.Shape

/-!
# Replacing the numbers of an expression

`Expr.mapM` replaces the numbers of a tree and may fail at each of them.  Where it succeeds, the
tree that it makes is the one it was given but for the numbers.

* For each kind of tree one lemma says what it is replaced by (`mapM_chain_eq_ok_iff` and its
  likes).  The rest of a chain is built in an argument that grows along the way; `IsMappedRest`
  says what comes of it without that argument.
* The shape, the depth and the places of chains stay as they are (`IsCanonical.of_mapM`,
  `groupDepth_of_mapM`, `isChain_of_mapM`).
* It goes from left to right, as it would along the list of the numbers (`numbers_mapM`).  So what
  holds of all replacements holds of all numbers (`forall_numbers_of_mapM`), and where it fails, it
  fails at the leftmost number that cannot be replaced (`mapM_eq_error_iff`).
-/

set_option autoImplicit false

namespace Calculator
namespace Expr

variable {α β ε : Type}

/-- The operands of the second rest are those of the first with their numbers replaced. -/
inductive IsMappedRest (f : α → Except ε β) :
    List (Operator × Expr α) → List (Operator × Expr β) → Prop
  | nil : IsMappedRest f [] []
  | cons {operator : Operator} {operand : Expr α} {operand' : Expr β}
      {rest : List (Operator × Expr α)} {rest' : List (Operator × Expr β)}
      (h : mapM f operand = .ok operand') (hrest : IsMappedRest f rest rest') :
      IsMappedRest f ((operator, operand) :: rest) ((operator, operand') :: rest')

variable {f : α → Except ε β}

/-! ## Case by case -/

theorem mapRestM_eq_ok_iff {rest : List (Operator × Expr α)}
    {done rest' : List (Operator × Expr β)} :
    mapRestM f done rest = .ok rest' ↔
      ∃ tail, IsMappedRest f rest tail ∧ rest' = done.reverse ++ tail := by
  induction rest generalizing done with
  | nil =>
    rw [mapRestM]
    constructor
    · intro h
      cases h
      exact ⟨[], .nil, (List.append_nil _).symm⟩
    · rintro ⟨_, ⟨⟩, rfl⟩
      rw [List.append_nil]
  | cons link rest ih =>
    obtain ⟨operator, operand⟩ := link
    rw [mapRestM, bind_eq_ok_iff]
    constructor
    · rintro ⟨operand', ho, h⟩
      obtain ⟨tail, ht, rfl⟩ := ih.1 h
      exact ⟨(operator, operand') :: tail, .cons ho ht, by simp⟩
    · rintro ⟨tail, h, rfl⟩
      obtain _ | ⟨ho, ht⟩ := h
      exact ⟨_, ho, ih.2 ⟨_, ht, by simp⟩⟩

theorem mapM_number_eq_ok_iff {value : α} {e : Expr β} :
    mapM f (number value) = .ok e ↔ ∃ value', f value = .ok value' ∧ number value' = e := by
  rw [mapM, map_eq_ok_iff]

theorem mapM_negate_eq_ok_iff {inner : Expr α} {e : Expr β} :
    mapM f (negate inner) = .ok e ↔ ∃ inner', mapM f inner = .ok inner' ∧ negate inner' = e := by
  rw [mapM, map_eq_ok_iff]

theorem mapM_group_eq_ok_iff {inner : Expr α} {e : Expr β} :
    mapM f (group inner) = .ok e ↔ ∃ inner', mapM f inner = .ok inner' ∧ group inner' = e := by
  rw [mapM, map_eq_ok_iff]

theorem mapM_chain_eq_ok_iff {first : Expr α} {rest : List (Operator × Expr α)} {e : Expr β} :
    mapM f (chain first rest) = .ok e ↔
      ∃ first' rest', mapM f first = .ok first' ∧ IsMappedRest f rest rest' ∧
        chain first' rest' = e := by
  have hrest : ∀ rest', mapRestM f [] rest = .ok rest' ↔ IsMappedRest f rest rest' := by
    intro rest'
    simp [mapRestM_eq_ok_iff]
  simp only [mapM, bind_eq_ok_iff, hrest, pure, Except.pure, Except.ok.injEq, exists_and_left]

/-! ## What the replacement keeps -/

/-- A chain without operators is its operand, before its numbers are replaced and afterwards. -/
theorem mapM_ofChain (first : Expr α) (rest : List (Operator × Expr α)) :
    mapM f (ofChain first rest) = (do
      let first ← mapM f first
      let rest ← mapRestM f [] rest
      return ofChain first rest) := by
  cases rest with
  | nil =>
    rw [ofChain]
    cases mapM f first <;> rfl
  | cons link rest =>
    rw [ofChain, mapM]
    cases mapM f first with
    | error failure => rfl
    | ok first' =>
      cases hrest : mapRestM f [] (link :: rest) with
      | error failure => rfl
      | ok rest' =>
        obtain ⟨_, ⟨⟩, rfl⟩ := mapRestM_eq_ok_iff.1 hrest
        rfl

/-- What holds of all that can replace the operands of a rest holds of those that do. -/
theorem IsMappedRest.forall_mem {P : Expr β → Prop} {rest : List (Operator × Expr α)}
    {rest' : List (Operator × Expr β)} (h : IsMappedRest f rest rest')
    (hP : ∀ link ∈ rest, ∀ e, mapM f link.2 = .ok e → P e) : ∀ link ∈ rest', P link.2 := by
  induction h with
  | nil => intro link hl; cases hl
  | cons ho _ ih =>
    intro link hl
    rcases List.mem_cons.1 hl with rfl | hl
    · exact hP _ (.head _) _ ho
    · exact ih (fun link hl => hP link (.tail _ hl)) link hl

theorem isChain_of_mapM {e : Expr α} {e' : Expr β} (h : mapM f e = .ok e') :
    e'.isChain = e.isChain := by
  cases e with
  | number value =>
    obtain ⟨value', -, rfl⟩ := mapM_number_eq_ok_iff.1 h
    rfl
  | negate inner =>
    obtain ⟨inner', -, rfl⟩ := mapM_negate_eq_ok_iff.1 h
    rfl
  | group inner =>
    obtain ⟨inner', -, rfl⟩ := mapM_group_eq_ok_iff.1 h
    rfl
  | chain first rest =>
    obtain ⟨first', rest', -, -, rfl⟩ := mapM_chain_eq_ok_iff.1 h
    rfl

/-- **Replacing the numbers of a canonical tree gives a canonical tree.** -/
theorem IsCanonical.of_mapM {e : Expr α} (hc : e.IsCanonical) :
    ∀ {e' : Expr β}, mapM f e = .ok e' → e'.IsCanonical := by
  induction hc with
  | number value =>
    intro e' h
    obtain ⟨value', -, rfl⟩ := mapM_number_eq_ok_iff.1 h
    exact .number value'
  | group _ ih =>
    intro e' h
    obtain ⟨inner', hi, rfl⟩ := mapM_group_eq_ok_iff.1 h
    exact .group (ih hi)
  | negate _ ih =>
    intro e' h
    obtain ⟨_, hg, rfl⟩ := mapM_negate_eq_ok_iff.1 h
    obtain ⟨inner', hi, rfl⟩ := mapM_group_eq_ok_iff.1 hg
    exact .negate (ih hi)
  | chain ne _ _ flat flatRest ihf ihr =>
    intro e' h
    obtain ⟨first', rest', hf, hr, rfl⟩ := mapM_chain_eq_ok_iff.1 h
    refine isCanonical_chain_iff.2 ⟨?_, ⟨ihf hf, (isChain_of_mapM hf).trans flat⟩, ?_⟩
    · rintro rfl
      cases hr
      exact ne rfl
    · exact hr.forall_mem (P := fun e => e.IsCanonical ∧ e.isChain = false) fun link hl e he =>
        ⟨ihr link hl he, (isChain_of_mapM he).trans (flatRest link hl)⟩

theorem groupDepthRest_of_mapM {rest : List (Operator × Expr α)}
    {rest' : List (Operator × Expr β)} (h : IsMappedRest f rest rest')
    (ih : ∀ link ∈ rest, ∀ e, mapM f link.2 = .ok e → e.groupDepth = link.2.groupDepth) :
    groupDepthRest rest' = groupDepthRest rest := by
  induction h with
  | nil => rfl
  | cons ho _ ihr =>
    rw [groupDepthRest, groupDepthRest, ih _ (.head _) _ ho,
      ihr fun link hl => ih link (.tail _ hl)]

theorem groupDepth_of_mapM (e : Expr α) :
    ∀ e' : Expr β, mapM f e = .ok e' → e'.groupDepth = e.groupDepth := by
  induction e using Expr.induction with
  | number value =>
    intro e' h
    obtain ⟨value', -, rfl⟩ := mapM_number_eq_ok_iff.1 h
    rfl
  | negate inner ih =>
    intro e' h
    obtain ⟨inner', hi, rfl⟩ := mapM_negate_eq_ok_iff.1 h
    exact ih inner' hi
  | group inner ih =>
    intro e' h
    obtain ⟨inner', hi, rfl⟩ := mapM_group_eq_ok_iff.1 h
    exact congrArg (· + 1) (ih inner' hi)
  | chain first rest ihf ihr =>
    intro e' h
    obtain ⟨first', rest', hf, hr, rfl⟩ := mapM_chain_eq_ok_iff.1 h
    rw [groupDepth, groupDepth, ihf first' hf, groupDepthRest_of_mapM hr ihr]

/-! ## From left to right -/

theorem numbersRest_mapRestM {rest : List (Operator × Expr α)}
    (ih : ∀ link ∈ rest, (link.2.mapM f).map numbers = link.2.numbers.mapM f)
    (done : List (Operator × Expr β)) :
    (mapRestM f done rest).map numbersRest =
      ((numbersRest rest).mapM f).map fun values => numbersRest done.reverse ++ values := by
  induction rest generalizing done with
  | nil => simp [mapRestM, numbersRest, Except.map, pure, Except.pure]
  | cons link rest ihr =>
    obtain ⟨operator, operand⟩ := link
    rw [numbersRest, List.mapM_append, ← ih _ (.head _), mapRestM]
    cases mapM f operand with
    | error failure => rfl
    | ok operand' =>
      have hrest := ihr (fun link hl => ih link (.tail _ hl)) ((operator, operand') :: done)
      simp only [bind, Except.bind, Except.map] at hrest ⊢
      rw [hrest]
      cases (numbersRest rest).mapM f <;> simp [numbersRest_append, numbersRest, pure, Except.pure]

/-- **The numbers of a tree are replaced like those of a list**, from left to right, and fail like
them. -/
theorem numbers_mapM (e : Expr α) : (e.mapM f).map numbers = e.numbers.mapM f := by
  induction e using Expr.induction with
  | number value =>
    rw [mapM, numbers, List.mapM_cons, List.mapM_nil]
    cases f value <;> rfl
  | negate inner ih =>
    rw [mapM, numbers, ← ih]
    cases mapM f inner <;> rfl
  | group inner ih =>
    rw [mapM, numbers, ← ih]
    cases mapM f inner <;> rfl
  | chain first rest ihf ihr =>
    have hrest : (numbersRest rest).mapM f = (mapRestM f [] rest).map numbersRest := by
      rw [numbersRest_mapRestM ihr []]
      cases (numbersRest rest).mapM f <;> rfl
    rw [mapM, numbers, List.mapM_append, ← ihf, hrest]
    cases mapM f first with
    | error failure => rfl
    | ok first' => cases mapRestM f [] rest <;> rfl

/-- The members of a list that come from a replacement are values of it. -/
theorem forall_of_listMapM {Q : β → Prop} (hQ : ∀ a b, f a = .ok b → Q b) {values : List α} :
    ∀ {values' : List β}, values.mapM f = .ok values' → ∀ y ∈ values', Q y := by
  induction values with
  | nil =>
    rintro _ ⟨⟩ y hy
    cases hy
  | cons x values ih =>
    intro values' h
    rw [List.mapM_cons] at h
    obtain ⟨y, hy, h⟩ := bind_eq_ok_iff.1 h
    obtain ⟨tail, ht, h⟩ := bind_eq_ok_iff.1 h
    obtain rfl := Except.ok.inj h
    exact List.forall_mem_cons.2 ⟨hQ x y hy, ih ht⟩

/-- The numbers of a tree that come from a replacement are values of it. -/
theorem forall_numbers_of_mapM {Q : β → Prop} (hQ : ∀ a b, f a = .ok b → Q b) (e : Expr α)
    (e' : Expr β) (h : mapM f e = .ok e') : ∀ x ∈ e'.numbers, Q x := by
  have hlist : e.numbers.mapM f = .ok e'.numbers := by
    rw [← numbers_mapM, h]
    rfl
  exact forall_of_listMapM hQ hlist

/-! ## Where it fails -/

/-- A list fails to be replaced at its first member that does. -/
theorem listMapM_eq_error_iff {values : List α} {failure : ε} :
    values.mapM f = .error failure ↔ ∃ before x after, values = before ++ x :: after ∧
      (∀ y ∈ before, ∃ value, f y = .ok value) ∧ f x = .error failure := by
  induction values with
  | nil => simp [pure, Except.pure]
  | cons x values ih =>
    rw [List.mapM_cons, bind_eq_error_iff]
    constructor
    · rintro (h | ⟨value, hv, h⟩)
      · exact ⟨[], x, values, rfl, by simp, h⟩
      · rcases bind_eq_error_iff.1 h with h | ⟨_, -, h⟩
        · obtain ⟨before, y, after, rfl, hbefore, hy⟩ := ih.1 h
          exact ⟨x :: before, y, after, rfl, List.forall_mem_cons.2 ⟨⟨value, hv⟩, hbefore⟩, hy⟩
        · cases h
    · rintro ⟨before, y, after, hvalues, hbefore, hy⟩
      cases before with
      | nil =>
        obtain ⟨rfl, rfl⟩ := List.cons.inj hvalues
        exact .inl hy
      | cons z before =>
        obtain ⟨rfl, rfl⟩ := List.cons.inj hvalues
        obtain ⟨⟨value, hv⟩, hbefore⟩ := List.forall_mem_cons.1 hbefore
        have htail := ih.2 ⟨before, y, after, rfl, hbefore, hy⟩
        exact .inr ⟨value, hv, bind_eq_error_iff.2 (.inl htail)⟩

/-- **A replacement fails at the leftmost number that cannot be replaced.** -/
theorem mapM_eq_error_iff {e : Expr α} {failure : ε} :
    mapM f e = .error failure ↔ ∃ before x after, e.numbers = before ++ x :: after ∧
      (∀ y ∈ before, ∃ value, f y = .ok value) ∧ f x = .error failure := by
  rw [← listMapM_eq_error_iff, ← numbers_mapM, map_eq_error_iff]

theorem exists_of_mapM_eq_error {e : Expr α} {failure : ε} (h : mapM f e = .error failure) :
    ∃ x ∈ e.numbers, f x = .error failure := by
  obtain ⟨before, x, after, hnumbers, -, hx⟩ := mapM_eq_error_iff.1 h
  exact ⟨x, by simp [hnumbers], hx⟩

end Expr
end Calculator
