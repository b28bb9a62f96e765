import Calculator.Expr.Grammar
import Calculator.Expr.Shape
import Calculator.Text.Normal

/-!
# Parentheses in the text of an expression

The checks that stand before the reader know of characters and parentheses alone.  Here it is shown
that they never stand in the way of an expression whose parentheses are not nested too deep, and
that they let no other one pass.

* `IsNested depth text` — what is left of the grammar for these checks: characters that are no
  parentheses, texts after one another, and texts in parentheses.
* `isNested_of_isExpr` — the text of an expression is nested as deep as its tree has groups.
* `IsNested.scan_of_le`, `IsNested.scan_of_lt` — counting from the left meets no `)` too many, and
  one `(` too many exactly if the text is nested deeper than the limit.
* `validate_of_isExpr`, `groupDepth_le_of_checkParentheses` — so the text of an expression is its
  own normal form as long as its tree is not deeper than the limit, and fails the check otherwise.
-/

set_option autoImplicit false

namespace Calculator

/-! ## Texts without their operands -/

namespace Grammar

/-- The characters of operands and operators. -/
def IsPlain (c : Char) : Prop := isNumeralChar c = true ∨ ∃ operator : Operator, c = operator.symbol

/-- The text is nested `depth` parentheses deep, and none of its parentheses are empty. -/
inductive IsNested : Nat → List Char → Prop
  | nil : IsNested 0 []
  | plain {c : Char} (h : IsPlain c) : IsNested 0 [c]
  | append {depth depth' : Nat} {text text' : List Char} (h : IsNested depth text)
      (h' : IsNested depth' text') : IsNested (max depth depth') (text ++ text')
  | group {depth : Nat} {c : Char} {text : List Char} (h : IsNested depth (c :: text))
      (hc : c ≠ ')') : IsNested (depth + 1) ('(' :: (c :: text ++ [')']))

theorem IsNested.cons_plain {depth : Nat} {c : Char} {text : List Char} (hc : IsPlain c)
    (h : IsNested depth text) : IsNested depth (c :: text) := by
  have := IsNested.append (.plain hc) h
  rwa [Nat.zero_max] at this

theorem isPlain_symbol (operator : Operator) : IsPlain operator.symbol := .inr ⟨operator, rfl⟩

theorem isNested_run {run : List Char} (h : ∀ c ∈ run, isNumeralChar c = true) :
    IsNested 0 run := by
  induction run with
  | nil => exact .nil
  | cons c run ih =>
    exact .cons_plain (.inl (h c (.head _))) (ih fun c hc => h c (.tail _ hc))

/-- No operand begins with a closing parenthesis. -/
theorem IsOperand.exists_head {position : Nat} {text : List Char} {e : Expr Literal}
    (h : IsOperand position text e) : ∃ c tail, text = c :: tail ∧ c ≠ ')' := by
  cases h with
  | run h =>
    obtain ⟨c, run, rfl⟩ := List.exists_cons_of_ne_nil h.ne_nil
    refine ⟨c, run, rfl, ?_⟩
    rintro rfl
    exact absurd (h.all ')' (.head _)) (by decide)
  | negatedRun h => exact ⟨'-', _, rfl, by decide⟩
  | group h => exact ⟨'(', _, rfl, by decide⟩
  | negatedGroup h => exact ⟨'-', _, rfl, by decide⟩

/-- No expression begins with a closing parenthesis. -/
theorem IsExpr.exists_head {position : Nat} {text : List Char} {e : Expr Literal}
    (h : IsExpr position text e) : ∃ c tail, text = c :: tail ∧ c ≠ ')' := by
  obtain ⟨hfirst, hrest⟩ := h
  obtain ⟨c, tail, rfl, hc⟩ := hfirst.exists_head
  exact ⟨c, _, rfl, hc⟩

theorem IsNested.of_isExpr_group {position depth : Nat} {text : List Char} {e : Expr Literal}
    (h : IsExpr position text e) (hn : IsNested depth text) :
    IsNested (depth + 1) ('(' :: (text ++ [')'])) := by
  obtain ⟨c, tail, rfl, hc⟩ := h.exists_head
  exact .group hn hc

mutual

theorem isNested_of_isOperand {position : Nat} {text : List Char} {e : Expr Literal} :
    IsOperand position text e → IsNested e.groupDepth text
  | .run h => by
    rw [Expr.groupDepth]
    exact isNested_run h.all
  | .negatedRun h => by
    rw [Expr.groupDepth]
    exact .cons_plain (isPlain_symbol .subtract) (isNested_run h.all)
  | .group h => by
    rw [Expr.groupDepth]
    exact .of_isExpr_group h (isNested_of_isExpr h)
  | .negatedGroup h => by
    rw [Expr.groupDepth, Expr.groupDepth]
    exact .cons_plain (isPlain_symbol .subtract) (.of_isExpr_group h (isNested_of_isExpr h))

theorem isNested_of_isRest {position : Nat} {text : List Char}
    {rest : List (Operator × Expr Literal)} :
    IsRest position text rest → IsNested (Expr.groupDepthRest rest) text
  | .nil => by
    rw [Expr.groupDepthRest]
    exact .nil
  | .cons h hrest => by
    rw [Expr.groupDepthRest]
    exact .cons_plain (isPlain_symbol _)
      (.append (isNested_of_isOperand h) (isNested_of_isRest hrest))

/-- **The text of an expression is nested as deep as the groups of its tree.** -/
theorem isNested_of_isExpr {position : Nat} {text : List Char} {e : Expr Literal} :
    IsExpr position text e → IsNested e.groupDepth text
  | .intro h hrest => by
    rw [Expr.groupDepth_ofChain]
    exact .append (isNested_of_isOperand h) (isNested_of_isRest hrest)

end

/-! ## The alphabet -/

theorem IsPlain.permitted {c : Char} (h : IsPlain c) :
    Normal.isPermitted c = true ∧ c ≠ ',' := by
  rcases h with h | ⟨operator, rfl⟩
  · rw [isNumeralChar, Bool.or_eq_true, beq_iff_eq] at h
    rcases h with h | rfl
    · refine ⟨by rw [Normal.isPermitted, h, Bool.true_or], ?_⟩
      rintro rfl
      exact absurd h (by decide)
    · decide
  · cases operator <;> decide

theorem IsPlain.ne_parenthesis {c : Char} (h : IsPlain c) : c ≠ '(' ∧ c ≠ ')' := by
  rcases h with h | ⟨operator, rfl⟩
  · constructor <;> rintro rfl <;> exact absurd h (by decide)
  · cases operator <;> decide

theorem IsNested.permitted {depth : Nat} {text : List Char} (h : IsNested depth text) :
    ∀ c ∈ text, Normal.isPermitted c = true ∧ c ≠ ',' := by
  induction h with
  | nil => intro c hc; cases hc
  | plain h =>
    intro c hc
    rw [List.mem_singleton.1 hc]
    exact h.permitted
  | append _ _ ih ih' =>
    intro c hc
    exact (List.mem_append.1 hc).elim (ih c) (ih' c)
  | group _ _ ih =>
    intro c hc
    rcases List.mem_cons.1 hc with rfl | hc
    · decide
    rcases List.mem_append.1 hc with hc | hc
    · exact ih c hc
    · rw [List.mem_singleton.1 hc]
      decide

end Grammar

namespace Normal

theorem isBlank_of_isPermitted {c : Char} (h : isPermitted c = true) : isBlank c = false := by
  rw [isPermitted, Bool.or_eq_true] at h
  rcases h with h | h
  · simp only [Char.isDigit, Bool.and_eq_true, decide_eq_true_eq] at h
    have hlow : 48 ≤ c.toNat := h.1
    have hhigh : c.toNat ≤ 57 := h.2
    rw [isBlank, List.any_eq_false]
    intro range hrange
    simp only [blankRanges, List.mem_cons, List.not_mem_nil, or_false] at hrange
    rcases hrange with rfl | rfl | rfl | rfl | rfl | rfl | rfl | rfl | rfl | rfl <;> simp <;> omega
  · simp only [decide_eq_true_eq, List.mem_cons, List.not_mem_nil, or_false] at h
    rcases h with rfl | rfl | rfl | rfl | rfl | rfl | rfl | rfl <;> decide

theorem firstForeign?_eq_none_iff {raw : List Char} :
    firstForeign? raw = none ↔ ∀ c ∈ raw, isBlank c = true ∨ isPermitted c = true := by
  simp only [firstForeign?, List.find?_eq_none, Bool.not_eq_true', Bool.not_eq_false,
    Bool.or_eq_true]
  constructor
  · intro h c hc
    rw [← List.zipIdx_map_fst 0 raw] at hc
    obtain ⟨place, hplace, rfl⟩ := List.mem_map.1 hc
    exact h place hplace
  · exact fun h place hplace => h place.1 (List.fst_mem_of_mem_zipIdx hplace)

/-- A text of permitted characters is its own normal form unless it has a comma. -/
theorem form_eq_self {text : List Char} (h : ∀ c ∈ text, isPermitted c = true ∧ c ≠ ',') :
    form text = text := by
  have hfilter : (text.filter fun c => !isBlank c) = text :=
    List.filter_eq_self.2 fun c hc => by simp [isBlank_of_isPermitted (h c hc).1]
  rw [form, hfilter]
  exact (List.map_congr_left fun c hc => if_neg (h c hc).2).trans (List.map_id' text)

/-! ## Counting from the left -/

theorem scan_other {c : Char} (h : c ≠ '(' ∧ c ≠ ')') (opened : List Nat) (position : Nat)
    (tail : List Char) : scan opened position (c :: tail) = scan opened (position + 1) tail := by
  rw [scan.eq_def]
  exact (if_neg h.1).trans (if_neg h.2)

theorem scan_open {opened : List Nat} (h : opened.length < nestingLimit) (position : Nat)
    (tail : List Char) :
    scan opened position ('(' :: tail) = scan (position :: opened) (position + 1) tail := by
  rw [scan.eq_def]
  exact (if_pos rfl).trans (if_neg (Nat.not_le.2 h))

theorem scan_open_of_le {opened : List Nat} (h : nestingLimit ≤ opened.length) (position : Nat)
    (tail : List Char) :
    scan opened position ('(' :: tail) = .error (.nestingTooDeep position nestingLimit) := by
  rw [scan.eq_def]
  exact (if_pos rfl).trans (if_pos h)

theorem scan_close (opener : Nat) (opened : List Nat) (position : Nat) (tail : List Char) :
    scan (opener :: opened) position (')' :: tail) = scan opened (position + 1) tail := rfl

theorem emptyGroup?_plain {c : Char} (h : Grammar.IsPlain c) (position : Nat) (tail : List Char) :
    emptyGroup? position (c :: tail) = emptyGroup? (position + 1) tail := by
  rw [emptyGroup?]
  rintro rest rfl
  exact absurd rfl h.ne_parenthesis.1

theorem emptyGroup?_open {c : Char} (h : c ≠ ')') (position : Nat) (tail : List Char) :
    emptyGroup? position ('(' :: c :: tail) = emptyGroup? (position + 1) (c :: tail) := by
  rw [emptyGroup?]
  rintro rest - htail
  exact h (List.cons.inj htail).1

theorem emptyGroup?_close (position : Nat) (tail : List Char) :
    emptyGroup? position (')' :: tail) = emptyGroup? (position + 1) tail := by
  rw [emptyGroup?]
  rintro rest hc
  exact absurd hc (by decide)

end Normal

namespace Grammar

open Calculator.Normal

/-- **A text that is not nested too deep is passed over**: it leaves open what was open before. -/
theorem IsNested.scan_of_le {depth : Nat} {text : List Char} (h : IsNested depth text) :
    ∀ opened position tail, opened.length + depth ≤ nestingLimit →
      scan opened position (text ++ tail) = scan opened (position + text.length) tail := by
  induction h with
  | nil => exact fun _ _ _ _ => rfl
  | plain h => exact fun opened position tail _ => scan_other h.ne_parenthesis opened position tail
  | @append depth depth' text text' _ _ ih ih' =>
    intro opened position tail hle
    rw [List.append_assoc, ih _ _ _ (by omega), ih' _ _ _ (by omega), List.length_append,
      Nat.add_assoc]
  | @group depth c text _ hc ih =>
    intro opened position tail hle
    have hinner := ih (position :: opened) (position + 1) (')' :: tail) (by simp; omega)
    rw [List.cons_append, List.append_assoc, scan_open (by omega), List.singleton_append, hinner,
      scan_close]
    simp [Nat.add_comm, Nat.add_left_comm]

/-- **A text that is nested too deep is not.** -/
theorem IsNested.scan_of_lt {depth : Nat} {text : List Char} (h : IsNested depth text) :
    ∀ opened position tail, nestingLimit < opened.length + depth → opened.length ≤ nestingLimit →
      ∃ place, scan opened position (text ++ tail) =
        .error (.nestingTooDeep place nestingLimit) := by
  induction h with
  | nil => intro _ _ _ hlt hle; omega
  | plain h => intro _ _ _ hlt hle; omega
  | @append depth depth' text text' h _ ih ih' =>
    intro opened position tail hlt hle
    rw [List.append_assoc]
    by_cases hd : nestingLimit < opened.length + depth
    · exact ih _ _ _ hd hle
    · rw [h.scan_of_le _ _ _ (by omega)]
      exact ih' _ _ _ (by omega) hle
  | @group depth c text _ hc ih =>
    intro opened position tail hlt hle
    rw [List.cons_append, List.append_assoc]
    by_cases hd : nestingLimit ≤ opened.length
    · exact ⟨position, scan_open_of_le hd position _⟩
    · rw [scan_open (by omega)]
      exact ih _ _ _ (by simp; omega) (by simp; omega)

/-- No parentheses in a nested text are empty. -/
theorem IsNested.emptyGroup? {depth : Nat} {text : List Char} (h : IsNested depth text) :
    ∀ position tail, Normal.emptyGroup? position (text ++ tail) =
      Normal.emptyGroup? (position + text.length) tail := by
  induction h with
  | nil => exact fun _ _ => rfl
  | plain h => exact fun position tail => emptyGroup?_plain h position tail
  | append _ _ ih ih' =>
    intro position tail
    rw [List.append_assoc, ih, ih', List.length_append, Nat.add_assoc]
  | @group depth c text _ hc ih =>
    intro position tail
    have hinner := ih (position + 1) (')' :: tail)
    rw [List.cons_append] at hinner
    rw [List.cons_append, List.cons_append, List.cons_append, List.append_assoc,
      List.singleton_append, emptyGroup?_open hc, hinner, emptyGroup?_close]
    simp [Nat.add_comm, Nat.add_left_comm]

end Grammar

/-! ## The checks -/

namespace Normal

open Grammar

/-- In the text of an expression there is nothing to check but its parentheses. -/
theorem validate_eq_of_isExpr {position : Nat} {text : List Char} {e : Expr Literal}
    (h : IsExpr position text e) :
    validate text = (checkParentheses text).map fun _ => text := by
  have hn := isNested_of_isExpr h
  rw [validate, firstForeign?_eq_none_iff.2 fun c hc => .inr (hn.permitted c hc).1]
  simp only [form_eq_self hn.permitted]
  rfl

theorem checkParentheses_of_isExpr {position : Nat} {text : List Char} {e : Expr Literal}
    (h : IsExpr position text e) (hdepth : e.groupDepth ≤ nestingLimit) :
    checkParentheses text = .ok () := by
  have hn := isNested_of_isExpr h
  have hscan := hn.scan_of_le [] 0 [] (by rw [List.length_nil, Nat.zero_add]; exact hdepth)
  have hempty := hn.emptyGroup? 0 []
  rw [List.append_nil] at hscan hempty
  rw [checkParentheses, hscan, hempty]
  rfl

/-- **The text of an expression that is not nested too deep passes all checks**, and is its own
normal form. -/
theorem validate_of_isExpr {position : Nat} {text : List Char} {e : Expr Literal}
    (h : IsExpr position text e) (hdepth : e.groupDepth ≤ nestingLimit) :
    validate text = .ok text := by
  rw [validate_eq_of_isExpr h, checkParentheses_of_isExpr h hdepth]
  rfl

/-- The text of an expression whose parentheses pass the check is not nested too deep. -/
theorem groupDepth_le_of_checkParentheses {position : Nat} {text : List Char} {e : Expr Literal}
    (h : IsExpr position text e) (hcheck : checkParentheses text = .ok ()) :
    e.groupDepth ≤ nestingLimit := by
  refine Nat.le_of_not_lt fun hdepth => ?_
  obtain ⟨place, hscan⟩ := (isNested_of_isExpr h).scan_of_lt [] 0 []
    (by rw [List.length_nil, Nat.zero_add]; exact hdepth) (Nat.zero_le _)
  rw [List.append_nil] at hscan
  rw [checkParentheses, hscan] at hcheck
  cases hcheck

/-- What passes the checks is the normal form of a text without foreign characters, and its
parentheses have been checked. -/
theorem validate_eq_ok_iff {raw normal : List Char} :
    validate raw = .ok normal ↔ (∀ c ∈ raw, isBlank c = true ∨ isPermitted c = true) ∧
      normal = form raw ∧ checkParentheses normal = .ok () := by
  rw [validate, ← firstForeign?_eq_none_iff]
  cases firstForeign? raw with
  | some place => simp
  | none =>
    simp only [true_and, bind_eq_ok_iff]
    constructor
    · rintro ⟨⟨⟩, hcheck, hform⟩
      obtain rfl := Except.ok.inj hform
      exact ⟨rfl, hcheck⟩
    · rintro ⟨rfl, hcheck⟩
      exact ⟨(), hcheck, rfl⟩

end Normal
end Calculator
