import Calculator.Proofs.Depth
import Calculator.Text.Verdict
import Mathlib.Order.Bounds.Basic

/-!
# The checks and the verdict

The checks go through a text from the left and keep the places of the parentheses that are open.
Here it is shown that what they answer is the `Verdict`, which only counts.

* `firstForeign?_eq_some_iff`, `emptyGroup?_eq_some_iff` — the two searches end at the least place.
* `scan_eq_error_iff` — a scan fails at the least refused place, and says why.
* `leavesOpen_scan` — where a scan does not fail, each place on its stack is that of a `(` after
  which everything is closed again.  So the place on top is the last that is never closed.
* `normalize_eq_iff_verdict` — all of it for a whole text.
-/

set_option autoImplicit false

namespace Calculator
namespace Normal

open Nesting

/-! ## Characters -/

theorem isForeign_iff {c : Char} : IsForeign c ↔ (!(isBlank c || isPermitted c)) = true := by
  rw [IsForeign, Bool.not_eq_true', Bool.or_eq_false_iff]

/-- **The first foreign character is the one at the least place.** -/
theorem firstForeign?_eq_some_iff {raw : List Char} {c : Char} {i : Nat} :
    firstForeign? raw = some (c, i) ↔ IsLeast (foreignPlaces raw) i ∧ raw[i]? = some c := by
  rw [firstForeign?, List.find?_eq_some_iff_getElem]
  constructor
  · rintro ⟨hc, k, hk, hplace, hbefore⟩
    rw [List.length_zipIdx] at hk
    obtain ⟨rfl, rfl⟩ : raw[k] = c ∧ k = i := by simpa using hplace
    refine ⟨⟨⟨raw[k], List.getElem?_eq_getElem hk, isForeign_iff.2 hc⟩, ?_⟩,
      List.getElem?_eq_getElem hk⟩
    rintro j ⟨d, hd, hforeign⟩
    refine Nat.le_of_not_lt fun hj => ?_
    obtain ⟨hlt, rfl⟩ := List.getElem?_eq_some_iff.1 hd
    have hbefore := hbefore j hj
    simp only [List.getElem_zipIdx, isForeign_iff.1 hforeign] at hbefore
    exact absurd hbefore (by decide)
  · rintro ⟨⟨⟨d, hd, hforeign⟩, hleast⟩, hc⟩
    obtain rfl : d = c := Option.some.inj (hd.symm.trans hc)
    obtain ⟨hi, hget⟩ := List.getElem?_eq_some_iff.1 hc
    refine ⟨isForeign_iff.1 hforeign, i, by simpa using hi, by simp [hget], fun j hj => ?_⟩
    have hjlt : j < raw.length := Nat.lt_trans hj hi
    rw [List.getElem_zipIdx, Bool.not_eq_true', ← Bool.not_eq_true, ← isForeign_iff]
    intro hforeign
    exact absurd (hleast ⟨raw[j], List.getElem?_eq_getElem hjlt, hforeign⟩) (Nat.not_le.2 hj)

theorem foreignPlaces_eq_empty_iff {raw : List Char} :
    foreignPlaces raw = ∅ ↔ firstForeign? raw = none := by
  rw [firstForeign?_eq_none_iff, Set.eq_empty_iff_forall_notMem]
  constructor
  · intro h c hc
    obtain ⟨i, hi⟩ := List.getElem?_of_mem hc
    have := h i
    rw [foreignPlaces, Set.mem_ofPred_eq] at this
    cases hb : isBlank c with
    | true => exact .inl rfl
    | false =>
      refine .inr ?_
      rw [← Bool.not_eq_false]
      exact fun hp => this ⟨c, hi, hb, hp⟩
  · rintro h i ⟨c, hc, hb, hp⟩
    rcases h c (List.mem_of_getElem? hc) with h | h
    · rw [h] at hb
      cases hb
    · rw [h] at hp
      cases hp

/-! ## The scan -/

theorem mem_refusedPlaces_iff {text : List Char} {i : Nat} :
    i ∈ refusedPlaces text ↔ IsRefused 0 text i := by
  rw [refusedPlaces, Set.mem_ofPred_eq, ClosesNothing, OpensTooMuch, IsRefused]
  constructor
  · rintro (⟨h, hcount⟩ | ⟨h, hcount⟩)
    · exact .inr ⟨h, by omega⟩
    · exact .inl ⟨h, by omega⟩
  · rintro (⟨h, hcount⟩ | ⟨h, hcount⟩)
    · exact .inr ⟨h, by omega⟩
    · exact .inl ⟨h, by omega⟩

theorem isLeast_refusedPlaces_iff {text : List Char} {i : Nat} :
    IsLeast (refusedPlaces text) i ↔ IsFirstRefused 0 text i := by
  rw [IsLeast, mem_lowerBounds, mem_refusedPlaces_iff, IsFirstRefused]
  refine and_congr_right fun _ => forall_congr' fun j => ?_
  rw [mem_refusedPlaces_iff]
  exact ⟨fun h hj hrefused => absurd (h hrefused) (Nat.not_le.2 hj),
    fun h hrefused => Nat.le_of_not_lt fun hj => h hj hrefused⟩

/-- What a scan passes over is not refused. -/
theorem not_isRefused_of_scan {text : List Char} {left : List Nat} :
    ∀ {opened : List Nat} {position : Nat}, opened.length ≤ nestingLimit →
      scan opened position text = .ok left → ∀ i, ¬ IsRefused opened.length text i := by
  induction text with
  | nil =>
    rintro opened position - - i (⟨h, -⟩ | ⟨h, -⟩) <;> simp at h
  | cons c text ih =>
    intro opened position hle h i
    by_cases hopen : c = '('
    · subst hopen
      by_cases hfull : nestingLimit ≤ opened.length
      · rw [scan_open_of_le hfull] at h
        cases h
      · rw [scan_open (by omega)] at h
        cases i with
        | zero =>
          rw [isRefused_zero_iff]
          rintro (⟨-, hlength⟩ | ⟨hc, -⟩)
          · omega
          · cases hc
        | succ i =>
          have hcount : opened.length + ['('].count '(' =
              (position :: opened).length + ['('].count ')' := by simp
          rw [isRefused_succ_iff hcount]
          exact ih (by rw [List.length_cons]; omega) h i
    by_cases hclose : c = ')'
    · subst hclose
      cases opened with
      | nil => cases h
      | cons opener opened =>
        rw [List.length_cons] at hle ⊢
        rw [scan_close] at h
        cases i with
        | zero => simp [isRefused_zero_iff]
        | succ i =>
          have hcount : opened.length + 1 + [')'].count '(' =
              opened.length + [')'].count ')' := by simp
          rw [isRefused_succ_iff hcount]
          exact ih (by omega) h i
    · rw [scan_other ⟨hopen, hclose⟩] at h
      cases i with
      | zero => simp [isRefused_zero_iff, hopen, hclose]
      | succ i =>
        have hcount : opened.length + [c].count '(' = opened.length + [c].count ')' := by
          simp [hopen, hclose]
        rw [isRefused_succ_iff hcount]
        exact ih hle h i

theorem refusedPlaces_eq_empty {text : List Char} {left : List Nat}
    (h : scan [] 0 text = .ok left) : refusedPlaces text = ∅ :=
  Set.eq_empty_iff_forall_notMem.2 fun i hi =>
    not_isRefused_of_scan (Nat.zero_le _) h i (mem_refusedPlaces_iff.1 hi)

/-- What is said of a refused place. -/
inductive Refusal (text : List Char) (i : Nat) : EvalError → Prop
  | closesNothing (h : ClosesNothing text i) : Refusal text i (.unbalancedParentheses i)
  | opensTooMuch (h : OpensTooMuch text i) : Refusal text i (.nestingTooDeep i nestingLimit)

theorem Refusal.unique {text : List Char} {i : Nat} {failure failure' : EvalError}
    (h : Refusal text i failure) (h' : Refusal text i failure') : failure = failure' := by
  cases h with
  | closesNothing h =>
    cases h' with
    | closesNothing => rfl
    | opensTooMuch h' => exact absurd (h.1.symm.trans h'.1) (by decide)
  | opensTooMuch h =>
    cases h' with
    | closesNothing h' => exact absurd (h.1.symm.trans h'.1) (by decide)
    | opensTooMuch => rfl

theorem exists_refusal_of_scan {text : List Char} {failure : EvalError}
    (h : scan [] 0 text = .error failure) :
    ∃ i, IsLeast (refusedPlaces text) i ∧ Refusal text i failure := by
  obtain ⟨i, hfirst, hfailure⟩ := scan_eq_error (Nat.zero_le _) h
  have hleast := isLeast_refusedPlaces_iff.2 hfirst
  refine ⟨i, hleast, ?_⟩
  rcases hfailure with ⟨hi, rfl⟩ | ⟨hi, rfl⟩ <;> rw [Nat.zero_add]
  · rcases hleast.1 with hc | ho
    · exact absurd (hc.1.symm.trans hi) (by decide)
    · exact .opensTooMuch ho
  · rcases hleast.1 with hc | ho
    · exact .closesNothing hc
    · exact absurd (ho.1.symm.trans hi) (by decide)

/-- **A scan fails at the least refused place**, and says why. -/
theorem scan_eq_error_iff {text : List Char} {failure : EvalError} :
    scan [] 0 text = .error failure ↔
      ∃ i, IsLeast (refusedPlaces text) i ∧ Refusal text i failure := by
  refine ⟨exists_refusal_of_scan, ?_⟩
  rintro ⟨i, hleast, hrefusal⟩
  cases h : scan [] 0 text with
  | ok left =>
    rw [refusedPlaces_eq_empty h] at hleast
    exact absurd hleast.1 (Set.notMem_empty i)
  | error failure' =>
    obtain ⟨i', hleast', hrefusal'⟩ := exists_refusal_of_scan h
    obtain rfl := hleast.unique hleast'
    rw [hrefusal.unique hrefusal']

theorem exists_scan_of_refusedPlaces {text : List Char} (h : refusedPlaces text = ∅) :
    ∃ left, scan [] 0 text = .ok left := by
  cases hscan : scan [] 0 text with
  | ok left => exact ⟨left, rfl⟩
  | error failure =>
    obtain ⟨i, hleast, -⟩ := exists_refusal_of_scan hscan
    rw [h] at hleast
    exact absurd hleast.1 (Set.notMem_empty i)

/-! ## What is left open -/

/-- A text leaves parentheses open at these places, the innermost first: after each of them, up to
the next or the end, everything is closed again. -/
inductive LeavesOpen : List Char → List Nat → Prop
  | closed {depth : Nat} {text : List Char} (h : Climbs depth text) : LeavesOpen text []
  | opened {before inner : List Char} {outer : List Nat} {depth : Nat} (h : LeavesOpen before outer)
      (hinner : Climbs depth inner) : LeavesOpen (before ++ '(' :: inner) (before.length :: outer)

theorem LeavesOpen.append {text more : List Char} {opened : List Nat} {depth : Nat}
    (h : LeavesOpen text opened) (hmore : Climbs depth more) :
    LeavesOpen (text ++ more) opened := by
  cases h with
  | closed h => exact .closed (h.append hmore)
  | opened h hinner =>
    rw [List.append_assoc]
    exact .opened h (hinner.append hmore)

/-- **What a scan has on its stack is left open.** -/
theorem leavesOpen_scan {rest : List Char} {left : List Nat} :
    ∀ {text : List Char} {opened : List Nat}, LeavesOpen text opened →
      scan opened text.length rest = .ok left → LeavesOpen (text ++ rest) left := by
  induction rest with
  | nil =>
    intro text opened h hscan
    rw [List.append_nil, ← Except.ok.inj hscan]
    exact h
  | cons c rest ih =>
    intro text opened h hscan
    -- the character is moved from what is to be scanned to what has been
    have hshift : ∀ {opened'}, LeavesOpen (text ++ [c]) opened' →
        scan opened' (text.length + 1) rest = .ok left → LeavesOpen (text ++ c :: rest) left := by
      intro opened' h' hscan'
      have hlength : (text ++ [c]).length = text.length + 1 := by simp
      rw [← List.singleton_append, ← List.append_assoc]
      exact ih h' (hlength ▸ hscan')
    by_cases hopen : c = '('
    · subst hopen
      by_cases hfull : nestingLimit ≤ opened.length
      · rw [scan_open_of_le hfull] at hscan
        cases hscan
      · rw [scan_open (by omega)] at hscan
        exact hshift (.opened h climbs_nil) hscan
    by_cases hclose : c = ')'
    · subst hclose
      cases h with
      | closed => cases hscan
      | opened h hinner =>
        rw [scan_close] at hscan
        refine hshift ?_ hscan
        rw [List.append_assoc, List.cons_append]
        exact h.append hinner.group
    · rw [scan_other ⟨hopen, hclose⟩] at hscan
      exact hshift (h.append (climbs_singleton ⟨hopen, hclose⟩)) hscan

theorem count_take_add_count_drop (text : List Char) (i : Nat) (c : Char) :
    (text.take i).count c + (text.drop i).count c = text.count c := by
  rw [← List.count_append, List.take_append_drop]

/-- In what is closed again, every `(` is. -/
theorem not_isUnclosed_of_climbs {depth : Nat} (before : List Char) {text : List Char}
    (h : Climbs depth text) {i : Nat} (hi : before.length ≤ i) :
    ¬ IsUnclosed (before ++ text) i := by
  rintro ⟨hopen, hopens⟩
  have hlt : i < (before ++ text).length := (List.getElem?_eq_some_iff.1 hopen).1
  have hcount := hopens _ hlt (Nat.le_refl _)
  rw [List.take_length, List.drop_append, List.drop_eq_nil_of_le hi, List.nil_append] at hcount
  -- as much is opened as closed, and before this place no less opened than closed
  have habove := h.above (i - before.length)
  have hreturns := h.returns
  have := count_take_add_count_drop text (i - before.length) '('
  have := count_take_add_count_drop text (i - before.length) ')'
  omega

theorem unclosedPlaces_eq_empty {text : List Char} (h : LeavesOpen text []) :
    unclosedPlaces text = ∅ := by
  cases h with
  | closed h =>
    exact Set.eq_empty_iff_forall_notMem.2 fun i => not_isUnclosed_of_climbs [] h (Nat.zero_le i)

/-- **The innermost place that is left open is the last that is never closed.** -/
theorem isGreatest_unclosedPlaces {text : List Char} {i : Nat} {outer : List Nat}
    (h : LeavesOpen text (i :: outer)) : IsGreatest (unclosedPlaces text) i := by
  cases h with
  | @opened before inner _ depth h hinner =>
    constructor
    · refine ⟨by simp, fun j hj _ => ?_⟩
      obtain ⟨k, rfl⟩ : ∃ k, j = before.length + 1 + k := ⟨j - (before.length + 1), by omega⟩
      have habove := hinner.above k
      rw [Nat.add_assoc, List.take_length_add_append, List.drop_left, Nat.add_comm 1,
        List.take_succ_cons]
      simp
      omega
    · intro j hj
      refine Nat.le_of_not_lt fun hlt => ?_
      rw [← List.singleton_append, ← List.append_assoc] at hj
      exact not_isUnclosed_of_climbs _ hinner (by simpa [Nat.succ_le_iff] using hlt) hj

/-! ## Empty groups -/

theorem succ_mem_emptyGroupPlaces_iff {c : Char} {text : List Char} {i : Nat} :
    i + 1 ∈ emptyGroupPlaces (c :: text) ↔ i ∈ emptyGroupPlaces text := by
  simp [emptyGroupPlaces]

theorem emptyGroup?_eq {position : Nat} {text : List Char} :
    (∀ place, emptyGroup? position text = some place →
      ∃ i, place = position + i ∧ IsLeast (emptyGroupPlaces text) i) ∧
    (emptyGroup? position text = none → emptyGroupPlaces text = ∅) := by
  fun_induction emptyGroup? position text with
  | case1 position rest =>
    refine ⟨fun place h => ⟨0, by simpa using h.symm, ⟨⟨rfl, rfl⟩, fun _ _ => Nat.zero_le _⟩⟩, ?_⟩
    intro h
    cases h
  | case2 position c rest hne ih =>
    have hzero : 0 ∉ emptyGroupPlaces (c :: rest) := by
      rintro ⟨hc, hnext⟩
      cases rest with
      | nil => simp at hnext
      | cons d rest =>
        simp only [List.getElem?_cons_zero, Option.some.injEq, List.getElem?_cons_succ] at hc hnext
        exact hne rest hc (by rw [hnext])
    constructor
    · intro place h
      obtain ⟨i, rfl, hmem, hleast⟩ := ih.1 place h
      refine ⟨i + 1, by omega, succ_mem_emptyGroupPlaces_iff.2 hmem, fun j hj => ?_⟩
      cases j with
      | zero => exact absurd hj hzero
      | succ j => exact Nat.succ_le_succ (hleast (succ_mem_emptyGroupPlaces_iff.1 hj))
    · intro h
      rw [Set.eq_empty_iff_forall_notMem]
      intro j hj
      cases j with
      | zero => exact hzero hj
      | succ j =>
        have := succ_mem_emptyGroupPlaces_iff.1 hj
        rw [ih.2 h] at this
        exact this
  | case3 position =>
    refine ⟨fun place h => (by cases h), fun _ => ?_⟩
    simp [emptyGroupPlaces]

/-- **The search for `()` ends at the least place.** -/
theorem emptyGroup?_eq_some_iff {text : List Char} {i : Nat} :
    emptyGroup? 0 text = some i ↔ IsLeast (emptyGroupPlaces text) i := by
  constructor
  · intro h
    obtain ⟨j, rfl, hleast⟩ := emptyGroup?_eq.1 _ h
    rwa [Nat.zero_add]
  · intro h
    cases he : emptyGroup? 0 text with
    | some place =>
      obtain ⟨j, rfl, hleast⟩ := emptyGroup?_eq.1 _ he
      rw [Nat.zero_add, hleast.unique h]
    | none =>
      have := h.1
      rw [emptyGroup?_eq.2 he] at this
      exact absurd this (Set.notMem_empty i)

theorem emptyGroup?_eq_none_iff {text : List Char} :
    emptyGroup? 0 text = none ↔ emptyGroupPlaces text = ∅ := by
  refine ⟨emptyGroup?_eq.2, fun h => ?_⟩
  cases he : emptyGroup? 0 text with
  | none => rfl
  | some i =>
    have := (emptyGroup?_eq_some_iff.1 he).1
    rw [h] at this
    exact absurd this (Set.notMem_empty i)

/-! ## The verdict -/

/-- What is left open by a scan from the beginning of a text. -/
theorem leavesOpen_of_scan {text : List Char} {left : List Nat} (h : scan [] 0 text = .ok left) :
    LeavesOpen text left :=
  leavesOpen_scan (show LeavesOpen [] [] from .closed climbs_nil) h

theorem checkParentheses_of_scan {text : List Char} {failure : EvalError}
    (h : scan [] 0 text = .error failure) : checkParentheses text = .error failure := by
  rw [checkParentheses, h]
  rfl

/-- **The checks answer with the verdict.** -/
theorem verdict_validate (raw : List Char) :
    Verdict raw ((validate raw).map String.ofList) := by
  rw [validate]
  cases hf : firstForeign? raw with
  | some place =>
    obtain ⟨hleast, hc⟩ := firstForeign?_eq_some_iff.1 hf
    exact .foreign hleast hc
  | none =>
    have permitted := foreignPlaces_eq_empty_iff.2 hf
    cases hs : scan [] 0 (form raw) with
    | error failure =>
      obtain ⟨i, hleast, hrefusal⟩ := scan_eq_error_iff.1 hs
      simp only [checkParentheses_of_scan hs]
      cases hrefusal with
      | closesNothing h => exact .closesNothing permitted hleast h
      | opensTooMuch h => exact .opensTooMuch permitted hleast h
    | ok left =>
      have counted := refusedPlaces_eq_empty hs
      have hleft := leavesOpen_of_scan hs
      simp only [checkParentheses, hs]
      cases he : emptyGroup? 0 (form raw) with
      | some i => exact .emptyGroup permitted counted (emptyGroup?_eq_some_iff.1 he)
      | none =>
        have filled := emptyGroup?_eq_none_iff.1 he
        cases left with
        | nil => exact .accepted permitted counted filled (unclosedPlaces_eq_empty hleft)
        | cons i outer => exact .unclosed permitted counted filled (isGreatest_unclosedPlaces hleft)

/-- **There is only one verdict on a text.** -/
theorem validate_eq_of_verdict {raw : List Char} {outcome : Except EvalError String}
    (h : Verdict raw outcome) : (validate raw).map String.ofList = outcome := by
  cases h with
  | foreign least hc =>
    rw [validate, firstForeign?_eq_some_iff.2 ⟨least, hc⟩]
    rfl
  | closesNothing permitted least h =>
    have hs := scan_eq_error_iff.2 ⟨_, least, .closesNothing h⟩
    rw [validate, foreignPlaces_eq_empty_iff.1 permitted]
    simp only [checkParentheses_of_scan hs]
    rfl
  | opensTooMuch permitted least h =>
    have hs := scan_eq_error_iff.2 ⟨_, least, .opensTooMuch h⟩
    rw [validate, foreignPlaces_eq_empty_iff.1 permitted]
    simp only [checkParentheses_of_scan hs]
    rfl
  | emptyGroup permitted counted least =>
    obtain ⟨left, hs⟩ := exists_scan_of_refusedPlaces counted
    rw [validate, foreignPlaces_eq_empty_iff.1 permitted]
    simp only [checkParentheses, hs, emptyGroup?_eq_some_iff.2 least]
    rfl
  | unclosed permitted counted filled greatest =>
    obtain ⟨left, hs⟩ := exists_scan_of_refusedPlaces counted
    have hleft := leavesOpen_of_scan hs
    rw [validate, foreignPlaces_eq_empty_iff.1 permitted]
    cases left with
    | nil =>
      rw [unclosedPlaces_eq_empty hleft] at greatest
      exact absurd greatest.1 (Set.notMem_empty _)
    | cons j outer =>
      obtain rfl := (isGreatest_unclosedPlaces hleft).unique greatest
      simp only [checkParentheses, hs, emptyGroup?_eq_none_iff.2 filled]
      rfl
  | accepted permitted counted filled closed =>
    obtain ⟨left, hs⟩ := exists_scan_of_refusedPlaces counted
    have hleft := leavesOpen_of_scan hs
    rw [validate, foreignPlaces_eq_empty_iff.1 permitted]
    cases left with
    | nil =>
      simp only [checkParentheses, hs, emptyGroup?_eq_none_iff.2 filled]
      rfl
    | cons j outer =>
      have := (isGreatest_unclosedPlaces hleft).1
      rw [closed] at this
      exact absurd this (Set.notMem_empty j)

/-! ## What passes -/

theorem count_take_succ {text : List Char} {c : Char} {i : Nat} (h : text[i]? = some c) (d : Char) :
    (text.take (i + 1)).count d = (text.take i).count d + [c].count d := by
  rw [List.take_add_one, h, Option.toList_some, List.count_append]

/-- Where nothing is refused, the number of open parentheses stays between zero and the limit. -/
theorem count_take_of_refusedPlaces {text : List Char} (h : refusedPlaces text = ∅) (i : Nat) :
    (text.take i).count ')' ≤ (text.take i).count '(' ∧
      (text.take i).count '(' ≤ (text.take i).count ')' + nestingLimit := by
  induction i with
  | zero => simp
  | succ i ih =>
    rw [Set.eq_empty_iff_forall_notMem] at h
    have hi := h i
    cases hc : text[i]? with
    | none => rwa [List.take_add_one, hc, Option.toList_none, List.append_nil]
    | some c =>
      rw [count_take_succ hc, count_take_succ hc]
      by_cases hopen : c = '('
      · subst hopen
        have : (text.take i).count '(' ≠ (text.take i).count ')' + nestingLimit := fun hcount =>
          hi (.inr ⟨hc, hcount⟩)
        simp
        omega
      by_cases hclose : c = ')'
      · subst hclose
        have : (text.take i).count ')' ≠ (text.take i).count '(' := fun hcount =>
          hi (.inl ⟨hc, hcount⟩)
        simp
        omega
      · simp [hopen, hclose]
        omega

/-- **No parenthesis is refused or left open** exactly if they are balanced and not nested too
deep. -/
theorem isBalanced_iff {text : List Char} :
    refusedPlaces text = ∅ ∧ unclosedPlaces text = ∅ ↔
      IsBalanced text ∧ deepest text ≤ nestingLimit := by
  constructor
  · rintro ⟨counted, closed⟩
    have hcount := count_take_of_refusedPlaces counted
    obtain ⟨left, hs⟩ := exists_scan_of_refusedPlaces counted
    have hleft := leavesOpen_of_scan hs
    cases hleft with
    | closed h =>
      refine ⟨⟨h.returns, fun i _ => (hcount i).1⟩, deepest_le_iff.2 fun i _ => ?_⟩
      have := (hcount i).2
      rw [surplus]
      omega
    | opened h hinner =>
      have := (isGreatest_unclosedPlaces (.opened h hinner)).1
      rw [closed] at this
      exact absurd this (Set.notMem_empty _)
  · rintro ⟨⟨hreturns, habove⟩, hdeepest⟩
    refine ⟨Set.eq_empty_iff_forall_notMem.2 ?_, Set.eq_empty_iff_forall_notMem.2 ?_⟩
    · rintro i (⟨hi, hcount⟩ | ⟨hi, hcount⟩)
      · have := habove (i + 1) (List.getElem?_eq_some_iff.1 hi).1
        rw [count_take_succ hi, count_take_succ hi] at this
        simp at this
        omega
      · have := deepest_le_iff.1 hdeepest (i + 1) (List.getElem?_eq_some_iff.1 hi).1
        rw [surplus, count_take_succ hi, count_take_succ hi] at this
        simp at this
        omega
    · rintro i ⟨hi, hopens⟩
      have hlt := (List.getElem?_eq_some_iff.1 hi).1
      have hcount := hopens _ hlt (Nat.le_refl _)
      rw [List.take_length] at hcount
      have := habove i (Nat.le_of_lt hlt)
      have := count_take_add_count_drop text i '('
      have := count_take_add_count_drop text i ')'
      omega

/-- The normal form of a text without foreign characters has none, and no comma. -/
theorem isPermitted_form {raw : List Char} (h : foreignPlaces raw = ∅) :
    ∀ c ∈ form raw, isPermitted c = true ∧ c ≠ ',' := by
  intro c hc
  rw [form] at hc
  obtain ⟨d, hd, rfl⟩ := List.mem_map.1 hc
  obtain ⟨hd, hblank⟩ := List.mem_filter.1 hd
  have hpermitted : isPermitted d = true := by
    rcases firstForeign?_eq_none_iff.1 (foreignPlaces_eq_empty_iff.1 h) d hd with hb | hp
    · rw [hb] at hblank
      cases hblank
    · exact hp
  rw [unifySeparator]
  split
  · decide
  · exact ⟨hpermitted, ‹_›⟩

end Normal

open Calculator.Normal Nesting

theorem normalize_eq_ok_iff_places {raw normal : String} :
    normalize raw = .ok normal ↔ normal.toList = form raw.toList ∧
      foreignPlaces raw.toList = ∅ ∧ IsBalanced normal.toList ∧
      deepest normal.toList ≤ nestingLimit ∧ emptyGroupPlaces normal.toList = ∅ := by
  constructor
  · intro h
    have hverdict := verdict_validate raw.toList
    rw [← normalize, h] at hverdict
    cases hverdict with
    | accepted permitted counted filled closed =>
      rw [String.toList_ofList]
      obtain ⟨balanced, deep⟩ := isBalanced_iff.1 ⟨counted, closed⟩
      exact ⟨rfl, permitted, balanced, deep, filled⟩
  · rintro ⟨hform, permitted, balanced, deep, filled⟩
    rw [hform] at balanced deep filled
    obtain ⟨counted, closed⟩ := isBalanced_iff.2 ⟨balanced, deep⟩
    rw [normalize, validate_eq_of_verdict (.accepted permitted counted filled closed), ← hform,
      String.ofList_toList]

/-- **The verdict on a text is fully determined.**  The checks answer with it and with nothing
else; a text passes them exactly if it has no foreign character, and the parentheses of its normal
form are balanced, not nested too deep and never empty; and the normal form passes them too, as its
own. -/
theorem normalize_eq_iff_verdict (raw : String) :
    (∀ outcome, normalize raw = outcome ↔ Verdict raw.toList outcome) ∧
    (∀ normal, normalize raw = .ok normal ↔ normal.toList = form raw.toList ∧
      foreignPlaces raw.toList = ∅ ∧ IsBalanced normal.toList ∧
      deepest normal.toList ≤ nestingLimit ∧ emptyGroupPlaces normal.toList = ∅) ∧
    ∀ normal, normalize raw = .ok normal → normalize normal = .ok normal := by
  refine ⟨fun outcome => ⟨?_, validate_eq_of_verdict⟩, fun normal => normalize_eq_ok_iff_places,
    fun normal h => ?_⟩
  · rintro rfl
    exact verdict_validate raw.toList
  · obtain ⟨hform, permitted, hparentheses⟩ := normalize_eq_ok_iff_places.1 h
    have hpermitted := isPermitted_form permitted
    rw [← hform] at hpermitted
    refine normalize_eq_ok_iff_places.2 ⟨(form_eq_self hpermitted).symm, ?_, hparentheses⟩
    exact foreignPlaces_eq_empty_iff.2
      (firstForeign?_eq_none_iff.2 fun c hc => .inr (hpermitted c hc).1)

end Calculator
