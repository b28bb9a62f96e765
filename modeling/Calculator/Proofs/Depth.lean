import Calculator.Proofs.Nested
import Calculator.Proofs.RoundTrip
import Calculator.Text.Verdict

/-!
# The depth of a text and the depth of its tree

How deep a text is nested can be found out in three ways: as the number of groups that lie inside of
one another in its tree, as the largest number of parentheses that are open at once, and by the scan
that refuses what is nested too deep.  On the text of an expression they agree.

* `IsNested.climbs` — going through a nested text, the number of open parentheses begins and ends at
  zero, never falls below, and its largest value is the depth.
* `scan_eq_error` — a scan that fails does so at the first place where a parenthesis is refused, and
  which place that is depends on the numbers of parentheses before it alone.
* `checks_agree_with_grammar` — so the checks before the reader let an expression pass exactly if
  its tree is not too deep, and stop at the first `(` beyond the limit otherwise.
-/

set_option autoImplicit false

namespace Calculator

/-! ## The heights of a text -/

namespace Nesting

/-- Going through a text, one parenthesis opened is one step up, and one closed is one step down.
The text climbs to `depth` and no higher, never goes below its beginning, and returns to it. -/
structure Climbs (depth : Nat) (text : List Char) : Prop where
  returns : text.count '(' = text.count ')'
  above : ∀ i, (text.take i).count ')' ≤ (text.take i).count '('
  below : ∀ i, (text.take i).count '(' ≤ (text.take i).count ')' + depth
  attained : ∃ i ≤ text.length, (text.take i).count '(' = (text.take i).count ')' + depth

theorem climbs_nil : Climbs 0 [] := ⟨rfl, by simp, by simp, 0, by simp⟩

theorem climbs_singleton {c : Char} (h : c ≠ '(' ∧ c ≠ ')') : Climbs 0 [c] := by
  have hopen : [c].count '(' = 0 := by simp [h.1]
  have hclose : [c].count ')' = 0 := by simp [h.2]
  have hle : ∀ i d, ([c].take i).count d ≤ [c].count d := fun i d =>
    (List.take_sublist i [c]).count_le d
  refine ⟨by omega, fun i => ?_, fun i => ?_, 0, by simp⟩
  · have := hle i ')'
    omega
  · have := hle i '('
    omega

theorem Climbs.append {depth depth' : Nat} {text text' : List Char} (h : Climbs depth text)
    (h' : Climbs depth' text') : Climbs (max depth depth') (text ++ text') := by
  have hreturns := h.returns
  have hcount : ∀ i c, ((text ++ text').take i).count c =
      (text.take i).count c + (text'.take (i - text.length)).count c := fun i c => by
    rw [List.take_append, List.count_append]
  refine ⟨?_, fun i => ?_, fun i => ?_, ?_⟩
  · rw [List.count_append, List.count_append, h.returns, h'.returns]
  · have := h.above i
    have := h'.above (i - text.length)
    rw [hcount, hcount]
    omega
  · have := h.below i
    have := h'.below (i - text.length)
    rw [hcount, hcount]
    -- only one of the two texts is left in its middle
    rcases Nat.le_total i text.length with hi | hi
    · rw [Nat.sub_eq_zero_of_le hi, List.take_zero, List.count_nil, List.count_nil]
      omega
    · rw [List.take_of_length_le hi, h.returns]
      omega
  · rcases Nat.le_total depth' depth with hd | hd
    · obtain ⟨i, hi, hattained⟩ := h.attained
      refine ⟨i, by rw [List.length_append]; omega, ?_⟩
      rw [hcount, hcount, Nat.sub_eq_zero_of_le hi, List.take_zero, List.count_nil, List.count_nil]
      omega
    · obtain ⟨i, hi, hattained⟩ := h'.attained
      refine ⟨text.length + i, by rw [List.length_append]; omega, ?_⟩
      rw [hcount, hcount, Nat.add_sub_cancel_left, List.take_of_length_le (Nat.le_add_right _ _)]
      omega

theorem Climbs.group {depth : Nat} {text : List Char} (h : Climbs depth text) :
    Climbs (depth + 1) ('(' :: (text ++ [')'])) := by
  have hcount : ∀ i c, (('(' :: (text ++ [')'])).take (i + 1)).count c =
      (if '(' == c then 1 else 0) + (text.take i).count c +
        ([')'].take (i - text.length)).count c := fun i c => by
    rw [List.take_succ_cons, List.count_cons, List.take_append, List.count_append]
    omega
  have hopen : ∀ i, ([')'].take i).count '(' = 0 := fun i =>
    Nat.le_zero.1 ((List.take_sublist i [')']).count_le '(')
  have hclose : ∀ i, ([')'].take i).count ')' ≤ 1 := fun i =>
    (List.take_sublist i [')']).count_le ')'
  refine ⟨?_, fun i => ?_, fun i => ?_, ?_⟩
  · simp [h.returns]
  · cases i with
    | zero => simp
    | succ i =>
      have := h.above i
      have := hclose (i - text.length)
      rw [hcount, hcount, hopen]
      simp
      omega
  · cases i with
    | zero => simp
    | succ i =>
      have := h.below i
      rw [hcount, hcount, hopen]
      simp
      omega
  · obtain ⟨i, hi, hattained⟩ := h.attained
    refine ⟨i + 1, by simp; omega, ?_⟩
    rw [hcount, hcount, Nat.sub_eq_zero_of_le hi, List.take_zero]
    simp
    omega

/-! ## The deepest place -/

theorem foldl_max_le_iff {f : Nat → Nat} {places : List Nat} {depth bound : Nat} :
    places.foldl (fun depth i => max depth (f i)) depth ≤ bound ↔
      depth ≤ bound ∧ ∀ i ∈ places, f i ≤ bound := by
  induction places generalizing depth with
  | nil => simp
  | cons i places ih => rw [List.foldl_cons, ih, Nat.max_le, and_assoc, List.forall_mem_cons]

theorem deepest_le_iff {text : List Char} {bound : Nat} :
    deepest text ≤ bound ↔ ∀ i ≤ text.length, surplus (text.take i) ≤ bound := by
  rw [deepest, foldl_max_le_iff]
  simp only [List.mem_range, Nat.lt_succ_iff, Nat.zero_le, true_and]

theorem Climbs.deepest_eq {depth : Nat} {text : List Char} (h : Climbs depth text) :
    deepest text = depth := by
  refine Nat.le_antisymm (deepest_le_iff.2 fun i _ => ?_) ?_
  · have := h.below i
    rw [surplus]
    omega
  · obtain ⟨i, hi, hattained⟩ := h.attained
    have hle := deepest_le_iff.1 (Nat.le_refl (deepest text)) i hi
    rw [surplus] at hle
    omega

end Nesting

namespace Grammar

open Nesting

/-- **The height of a nested text is its depth.** -/
theorem IsNested.climbs {depth : Nat} {text : List Char} (h : IsNested depth text) :
    Climbs depth text := by
  induction h with
  | nil => exact climbs_nil
  | plain h => exact climbs_singleton h.ne_parenthesis
  | append _ _ ih ih' => exact ih.append ih'
  | group _ _ ih => exact ih.group

/-- The groups of a tree lie as deep as the parentheses of its text. -/
theorem deepest_of_isExpr {position : Nat} {text : List Char} {e : Expr Literal}
    (h : IsExpr position text e) : deepest text = e.groupDepth :=
  (isNested_of_isExpr h).climbs.deepest_eq

end Grammar

/-! ## Where a scan fails -/

namespace Normal

open Nesting

/-- The parenthesis at place `i` is refused, where `outer` are open before the text: it is a `(`
inside of as many as may be open, or a `)` where none is. -/
def IsRefused (outer : Nat) (text : List Char) (i : Nat) : Prop :=
  (text[i]? = some '(' ∧
      outer + (text.take i).count '(' = nestingLimit + (text.take i).count ')') ∨
    (text[i]? = some ')' ∧ outer + (text.take i).count '(' = (text.take i).count ')')

theorem isRefused_zero_iff {outer : Nat} {c : Char} {text : List Char} :
    IsRefused outer (c :: text) 0 ↔ (c = '(' ∧ outer = nestingLimit) ∨ (c = ')' ∧ outer = 0) := by
  simp [IsRefused]

theorem isRefused_succ_iff {outer outer' : Nat} {c : Char} {text : List Char}
    (h : outer + [c].count '(' = outer' + [c].count ')') (i : Nat) :
    IsRefused outer (c :: text) (i + 1) ↔ IsRefused outer' text i := by
  have hcount : ∀ d, ((c :: text).take (i + 1)).count d = [c].count d + (text.take i).count d :=
    fun d => by rw [List.take_succ_cons, ← List.singleton_append, List.count_append]
  rw [IsRefused, IsRefused, List.getElem?_cons_succ, hcount, hcount]
  refine or_congr (and_congr_right fun _ => ?_) (and_congr_right fun _ => ?_) <;> omega

/-- The parenthesis at place `i` is the first that is refused. -/
def IsFirstRefused (outer : Nat) (text : List Char) (i : Nat) : Prop :=
  IsRefused outer text i ∧ ∀ j < i, ¬ IsRefused outer text j

theorem isFirstRefused_zero {outer : Nat} {text : List Char} (h : IsRefused outer text 0) :
    IsFirstRefused outer text 0 :=
  ⟨h, fun _ hj => absurd hj (Nat.not_lt_zero _)⟩

theorem IsFirstRefused.cons {outer outer' i : Nat} {c : Char} {text : List Char}
    (h : IsFirstRefused outer' text i) (hhead : ¬ IsRefused outer (c :: text) 0)
    (hcount : outer + [c].count '(' = outer' + [c].count ')') :
    IsFirstRefused outer (c :: text) (i + 1) := by
  refine ⟨(isRefused_succ_iff hcount i).2 h.1, fun j hj => ?_⟩
  cases j with
  | zero => exact hhead
  | succ j =>
    intro hrefused
    exact h.2 j (Nat.lt_of_succ_lt_succ hj) ((isRefused_succ_iff hcount j).1 hrefused)

/-- **A scan fails at the first parenthesis that is refused**, and says why. -/
theorem scan_eq_error {text : List Char} {failure : EvalError} :
    ∀ {opened : List Nat} {position : Nat}, opened.length ≤ nestingLimit →
      scan opened position text = .error failure →
      ∃ i, IsFirstRefused opened.length text i ∧
        ((text[i]? = some '(' ∧ failure = .nestingTooDeep (position + i) nestingLimit) ∨
          (text[i]? = some ')' ∧ failure = .unbalancedParentheses (position + i))) := by
  induction text with
  | nil => intro opened position hle h; cases h
  | cons c text ih =>
    intro opened position hle h
    -- the rest of the text is scanned from the next place on
    have hshift : ∀ {opened'}, opened'.length ≤ nestingLimit →
        opened.length + [c].count '(' = opened'.length + [c].count ')' →
        ¬ IsRefused opened.length (c :: text) 0 →
        scan opened' (position + 1) text = .error failure →
        ∃ i, IsFirstRefused opened.length (c :: text) i ∧
          (((c :: text)[i]? = some '(' ∧ failure = .nestingTooDeep (position + i) nestingLimit) ∨
            ((c :: text)[i]? = some ')' ∧ failure = .unbalancedParentheses (position + i))) := by
      intro opened' hle' hcount hhead hscan
      obtain ⟨i, hfirst, hfailure⟩ := ih hle' hscan
      refine ⟨i + 1, hfirst.cons hhead hcount, ?_⟩
      rwa [List.getElem?_cons_succ, ← Nat.add_assoc, Nat.add_right_comm]
    by_cases hopen : c = '('
    · subst hopen
      by_cases hfull : nestingLimit ≤ opened.length
      · rw [scan_open_of_le hfull] at h
        have hlength := Nat.le_antisymm hle hfull
        exact ⟨0, isFirstRefused_zero (isRefused_zero_iff.2 (.inl ⟨rfl, hlength⟩)),
          .inl ⟨rfl, (Except.error.inj h).symm⟩⟩
      · rw [scan_open (by omega)] at h
        refine hshift ?_ ?_ ?_ h
        · rw [List.length_cons]
          omega
        · simp
        · rw [isRefused_zero_iff]
          rintro (⟨-, hlength⟩ | ⟨hc, -⟩)
          · omega
          · cases hc
    by_cases hclose : c = ')'
    · subst hclose
      cases opened with
      | nil =>
        have hrefused : IsRefused 0 (')' :: text) 0 := isRefused_zero_iff.2 (.inr ⟨rfl, rfl⟩)
        exact ⟨0, isFirstRefused_zero hrefused, .inr ⟨rfl, (Except.error.inj h).symm⟩⟩
      | cons opener opened =>
        rw [scan_close] at h
        refine hshift ?_ ?_ ?_ h
        · rw [List.length_cons] at hle
          omega
        · simp
        · simp [isRefused_zero_iff]
    · rw [scan_other ⟨hopen, hclose⟩] at h
      refine hshift hle ?_ ?_ h
      · simp [hopen, hclose]
      · simp [isRefused_zero_iff, hopen, hclose]

/-- A scan that finds a text nested too deep stops at the first `(` beyond the limit. -/
theorem opensFirst_of_scan {text : List Char} {place : Nat}
    (h : scan [] 0 text = .error (.nestingTooDeep place nestingLimit)) :
    OpensFirst text (nestingLimit + 1) place := by
  obtain ⟨i, ⟨hrefused, hfirst⟩, ⟨hi, hfailure⟩ | ⟨-, hfailure⟩⟩ := scan_eq_error (Nat.zero_le _) h
  · obtain rfl : place = i := by simpa using hfailure
    refine ⟨⟨hi, ?_⟩, fun j hj hopens => hfirst j hj (.inl ⟨hopens.1, ?_⟩)⟩
    · rcases hrefused with ⟨-, hcount⟩ | ⟨hclose, -⟩
      · rw [List.length_nil] at hcount
        rw [surplus]
        omega
      · rw [hi] at hclose
        cases hclose
    · have hlevel := hopens.2
      have hlimit : 0 < nestingLimit := by decide
      rw [surplus] at hlevel
      rw [List.length_nil]
      omega
  · cases hfailure

end Normal

/-! ## The checks and the grammar -/

open Grammar Calculator.Normal Nesting

/-- **The text of an expression that is nested too deep** fails at the first `(` beyond the
limit. -/
theorem Normal.validate_of_lt {position : Nat} {text : List Char} {e : Expr Literal}
    (h : IsExpr position text e) (hdepth : nestingLimit < e.groupDepth) :
    ∃ place, OpensFirst text (nestingLimit + 1) place ∧
      validate text = .error (.nestingTooDeep place nestingLimit) := by
  obtain ⟨place, hscan⟩ := (isNested_of_isExpr h).scan_of_lt [] 0 []
    (by rw [List.length_nil, Nat.zero_add]; exact hdepth) (Nat.zero_le _)
  rw [List.append_nil] at hscan
  refine ⟨place, opensFirst_of_scan hscan, ?_⟩
  rw [validate_eq_of_isExpr h, checkParentheses, hscan]
  rfl

theorem normalize_eq_error {raw : String} {failure : EvalError}
    (h : Normal.validate raw.toList = .error failure) : normalize raw = .error failure := by
  rw [normalize, h]
  rfl

/-- A text that the reader accepts is written for literals whose tree is as deep as its own. -/
theorem exists_isExpr_of_parse {text : List Char} {e : Expr Binary64}
    (h : Expr.parse text = .ok e) :
    ∃ literals, IsExpr 0 text literals ∧ literals.mapM Literal.value = .ok e ∧
      e.groupDepth = literals.groupDepth := by
  obtain ⟨literals, htext, hm⟩ := bind_eq_ok_iff.1 h
  exact ⟨literals, Expr.ofText_eq_ok_iff.1 htext, hm, Expr.groupDepth_of_mapM literals e hm⟩

/-- **The checks and the grammar agree on parentheses.**  Where the reader makes a tree of a text,
its groups lie as deep as parentheses of the text are open at once.  If that is not deeper than the
limit, the text passes all checks and is its own normal form; otherwise it fails at the first `(`
beyond the limit.  So it is parsed as that tree exactly if the tree is not too deep. -/
theorem checks_agree_with_grammar {text : String} {e : Expr Binary64}
    (h : Expr.parse text.toList = .ok e) :
    e.groupDepth = deepest text.toList ∧
      (e.groupDepth ≤ nestingLimit → normalize text = .ok text) ∧
      (nestingLimit < e.groupDepth → ∃ place, OpensFirst text.toList (nestingLimit + 1) place ∧
        normalize text = .error (.nestingTooDeep place nestingLimit)) ∧
      (parse text = .ok e ↔ e.groupDepth ≤ nestingLimit) := by
  obtain ⟨literals, hl, hm, hdepth⟩ := exists_isExpr_of_parse h
  refine ⟨hdepth.trans (deepest_of_isExpr hl).symm, fun hle => ?_, fun hlt => ?_,
    fun hp => (isReadable_of_parse hp).depth, parse_of_isExpr hl hm⟩
  · exact normalize_eq_ok_iff.2 (validate_of_isExpr hl (hdepth ▸ hle))
  · obtain ⟨place, hplace, hvalidate⟩ := Normal.validate_of_lt hl (hdepth ▸ hlt)
    exact ⟨place, hplace, normalize_eq_error hvalidate⟩

/-- The groups of `-((0))+(0)` are two deep, and both of its runs of parentheses pass the checks. -/
theorem checks_agree_with_grammar_two_levels :
    Expr.parse "-((0))+(0)".toList =
        .ok (.binary (.negate (.group (.group (.number (.ofBits 0))))) .add
          (.group (.number (.ofBits 0)))) ∧
      deepest "-((0))+(0)".toList = 2 ∧ normalize "-((0))+(0)" = .ok "-((0))+(0)" := by
  have h : Expr.parse "-((0))+(0)".toList =
      .ok (.binary (.negate (.group (.group (.number (.ofBits 0))))) .add
        (.group (.number (.ofBits 0)))) := by rfl
  obtain ⟨hdepth, hnormal, -, -⟩ := checks_agree_with_grammar h
  exact ⟨h, hdepth.symm.trans rfl, hnormal (by decide)⟩

end Calculator
