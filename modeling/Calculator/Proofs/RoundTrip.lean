import Calculator.Evaluate
import Calculator.Expr.Render
import Calculator.Proofs.NumberText
import Calculator.Proofs.Readable
import Calculator.Proofs.Reading

/-!
# Reading the text of an expression

Writing a tree and reading the text gives the tree back, if it is one that texts are read as
(`parse_text`).  Since every pass keeps such trees, this holds of every tree that an evaluation
meets on its way (`parse_text_of_reaches`).  A finite number is such a tree as well, so its text
evaluates to it (`evaluate_value_text`).

The heart of the proof is `IsCanonical.exists_literals`: the text of a canonical tree of finite
numbers is written for a tree of literals with just these values.  It is an induction on the shape,
one case for each way to write an operand.  Wherever a canonical tree has no group its text has no
parentheses, and the minus sign of a number is read as that of its literal.
-/

set_option autoImplicit false

namespace Calculator

/-! ## Writing as the grammar says -/

theorem Grammar.IsOperand.isExpr {position : Nat} {text : List Char} {e : Expr Literal}
    (h : IsOperand position text e) : IsExpr position text e := by
  simpa [Expr.ofChain] using IsExpr.intro h .nil

namespace Expr

open Grammar

/-- A finite number is written as an operand. -/
theorem exists_literal {x : Binary64} (h : x.IsFinite) (position : Nat) :
    ∃ literals, IsOperand position (number x).chars literals ∧
      literals.mapM Literal.value = .ok (number x) := by
  rw [chars, x.toList_text h]
  cases hn : x.negative with
  | false =>
    rw [if_neg Bool.false_ne_true]
    refine ⟨_, .run x.isRun_digits, mapM_number_eq_ok_iff.2 ⟨x, ?_, rfl⟩⟩
    rw [← hn]
    exact x.value_digits h position
  | true =>
    rw [if_pos rfl]
    refine ⟨_, .negatedRun x.isRun_digits, mapM_number_eq_ok_iff.2 ⟨x, ?_, rfl⟩⟩
    rw [← hn]
    exact x.value_digits h (position + 1)

/-- Operands that are no chains are written one after another. -/
theorem exists_literalsRest {rest : List (Operator × Expr Binary64)}
    (h : ∀ link ∈ rest, link.2.isChain = false ∧ ∀ position, ∃ literals,
      IsOperand position link.2.chars literals ∧ literals.mapM Literal.value = .ok link.2)
    (position : Nat) :
    ∃ literals, IsRest position (charsRest rest) literals ∧
      IsMappedRest Literal.value literals rest := by
  induction rest generalizing position with
  | nil => exact ⟨[], .nil, .nil⟩
  | cons link rest ih =>
    obtain ⟨operator, operand⟩ := link
    obtain ⟨flat, ho⟩ := h _ (.head _)
    obtain ⟨literals, hl, hm⟩ := ho (position + 1)
    obtain ⟨literalsRest, hr, hmr⟩ :=
      ih (fun link hl => h link (.tail _ hl)) (position + 1 + operand.chars.length)
    rw [charsRest, flat, bracketsIf, if_neg Bool.false_ne_true]
    exact ⟨(operator, literals) :: literalsRest, .cons hl hr, .cons hm hmr⟩

/-- **A canonical tree of finite numbers is written as the grammar says**, for literals with just
these values; and as an operand, if it is no chain. -/
theorem IsCanonical.exists_literals {e : Expr Binary64} (hc : e.IsCanonical)
    (hf : ∀ x ∈ e.numbers, x.IsFinite) (position : Nat) :
    (e.isChain = false → ∃ literals,
      IsOperand position e.chars literals ∧ literals.mapM Literal.value = .ok e) ∧
    ∃ literals, IsExpr position e.chars literals ∧ literals.mapM Literal.value = .ok e := by
  induction hc generalizing position with
  | number x =>
    obtain ⟨literals, hl, hm⟩ := exists_literal (hf x (.head _)) position
    exact ⟨fun _ => ⟨literals, hl, hm⟩, literals, hl.isExpr, hm⟩
  | group _ ih =>
    obtain ⟨-, literals, hl, hm⟩ := ih hf (position + 1)
    have hm' := mapM_group_eq_ok_iff.2 ⟨_, hm, rfl⟩
    rw [chars]
    exact ⟨fun _ => ⟨_, .group hl, hm'⟩, _, (IsOperand.group hl).isExpr, hm'⟩
  | negate _ ih =>
    obtain ⟨-, literals, hl, hm⟩ := ih hf (position + 2)
    have hm' := mapM_negate_eq_ok_iff.2 ⟨_, mapM_group_eq_ok_iff.2 ⟨_, hm, rfl⟩, rfl⟩
    rw [chars, bracketedAfterMinus, bracketsIf, if_neg Bool.false_ne_true, chars]
    exact ⟨fun _ => ⟨_, .negatedGroup hl, hm'⟩, _, (IsOperand.negatedGroup hl).isExpr, hm'⟩
  | @chain first rest ne _ _ flat flatRest ihf ihr =>
    have hfirst : ∀ x ∈ first.numbers, x.IsFinite := fun x hx => hf x (List.mem_append_left _ hx)
    have hrest : ∀ link ∈ rest, ∀ x ∈ link.2.numbers, x.IsFinite := fun link hl x hx =>
      hf x (List.mem_append_right _ (mem_numbersRest_iff.2 ⟨link, hl, hx⟩))
    obtain ⟨literals, hl, hm⟩ := (ihf hfirst position).1 flat
    obtain ⟨literalsRest, hr, hmr⟩ := exists_literalsRest (fun link hl => ⟨flatRest link hl,
      fun position => (ihr link hl (hrest link hl) position).1 (flatRest link hl)⟩)
      (position + first.chars.length)
    refine ⟨fun h => (by cases h), Expr.ofChain literals literalsRest, ?_, ?_⟩
    · rw [chars, flat, bracketsIf, if_neg Bool.false_ne_true]
      exact .intro hl hr
    · cases hmr with
      | nil => exact absurd rfl ne
      | cons ho hmr => exact mapM_chain_eq_ok_iff.2 ⟨_, _, hm, .cons ho hmr, rfl⟩

end Expr

/-! ## The text of a tree -/

open Calculator.Expr Grammar

theorem normalize_eq_ok_iff {raw normal : String} :
    normalize raw = .ok normal ↔ Normal.validate raw.toList = .ok normal.toList := by
  rw [normalize, map_eq_ok_iff]
  constructor
  · rintro ⟨text, h, rfl⟩
    rwa [String.toList_ofList]
  · exact fun h => ⟨normal.toList, h, String.ofList_toList⟩

theorem parse_eq_error {raw : String} {failure : EvalError} (h : normalize raw = .error failure) :
    parse raw = .error failure := by
  rw [parse, h, error_bind]

theorem parse_eq_of_normalize {raw normal : String} (hn : normalize raw = .ok normal) :
    parse raw = Expr.parse normal.toList := by
  rw [parse, hn, ok_bind]

/-- The lines for a text are those for its tree, after the normal form if that is another text. -/
theorem trace_eq_bind {raw normal : String} {e : Expr Binary64} (hn : normalize raw = .ok normal)
    (hp : parse raw = .ok e) : trace raw = e.trace >>= fun lines =>
      pure (if lines.head? = some normal then lines else normal :: lines) := by
  rw [trace, hn, ok_bind, ← parse_eq_of_normalize hn, hp, ok_bind]

/-- A text that is parsed has a normal form, which is written for literals with the values that
are in the tree. -/
theorem parse_eq_ok_iff {raw : String} {e : Expr Binary64} :
    parse raw = .ok e ↔
      ∃ normal literals, normalize raw = .ok normal ∧ IsExpr 0 normal.toList literals ∧
        literals.mapM Literal.value = .ok e := by
  simp only [parse, Expr.parse, bind_eq_ok_iff, ofText_eq_ok_iff, exists_and_left]

/-- **What is parsed, without the checks**: a text of known characters, whose normal form is written
for literals that have values and lie in no more groups than the limit. -/
theorem parse_eq_ok_iff_form {raw : String} {e : Expr Binary64} :
    parse raw = .ok e ↔ (∀ c ∈ raw.toList, isBlank c = true ∨ Normal.isPermitted c = true) ∧
      ∃ literals, IsExpr 0 (Normal.form raw.toList) literals ∧ literals.groupDepth ≤ nestingLimit ∧
        literals.mapM Literal.value = .ok e := by
  rw [parse_eq_ok_iff]
  constructor
  · rintro ⟨normal, literals, hn, hl, hm⟩
    obtain ⟨hknown, hform, hcheck⟩ := Normal.validate_eq_ok_iff.1 (normalize_eq_ok_iff.1 hn)
    have hdepth := Normal.groupDepth_le_of_checkParentheses hl hcheck
    exact ⟨hknown, literals, hform ▸ hl, hdepth, hm⟩
  · rintro ⟨hknown, literals, hl, hdepth, hm⟩
    have hcheck := Normal.checkParentheses_of_isExpr hl hdepth
    refine ⟨String.ofList (Normal.form raw.toList), literals, normalize_eq_ok_iff.2 ?_, ?_, hm⟩
    · rw [String.toList_ofList]
      exact Normal.validate_eq_ok_iff.2 ⟨hknown, rfl, hcheck⟩
    · rwa [String.toList_ofList]

theorem evaluate_eq_ok_iff {raw : String} {value : Binary64} :
    evaluate raw = .ok value ↔ ∃ e, parse raw = .ok e ∧ e.reduce = .ok value := by
  rw [evaluate, bind_eq_ok_iff]

theorem evaluate_eq_reduce {raw : String} {e : Expr Binary64} (h : parse raw = .ok e) :
    evaluate raw = e.reduce := by
  rw [evaluate, h, ok_bind]

/-- **Every tree that a text is parsed as is one that texts are read as.** -/
theorem isReadable_of_parse {raw : String} {e : Expr Binary64} (h : parse raw = .ok e) :
    e.IsReadable := by
  obtain ⟨normal, literals, hn, hl, hm⟩ := parse_eq_ok_iff.1 h
  exact isReadable_of_isExpr hl hm (Normal.validate_eq_ok_iff.1 (normalize_eq_ok_iff.1 hn)).2.2

/-- A text for literals whose tree is not too deep is its own normal form, and is parsed as their
values. -/
theorem parse_of_isExpr {text : String} {literals : Expr Literal} {e : Expr Binary64}
    (h : IsExpr 0 text.toList literals) (hvalue : literals.mapM Literal.value = .ok e)
    (hdepth : e.groupDepth ≤ nestingLimit) : parse text = .ok e := by
  rw [groupDepth_of_mapM literals e hvalue] at hdepth
  exact parse_eq_ok_iff.2 ⟨text, literals,
    normalize_eq_ok_iff.2 (Normal.validate_of_isExpr h hdepth), h, hvalue⟩

/-- **The text of a readable tree is parsed as that tree.** -/
theorem parse_text {e : Expr Binary64} (h : e.IsReadable) : parse e.text = .ok e := by
  obtain ⟨-, literals, hl, hm⟩ := h.canonical.exists_literals h.finite 0
  exact parse_of_isExpr (by rwa [toList_text]) hm h.depth

/-- The text of a finite number is parsed as that number. -/
theorem parse_value_text {x : Binary64} (h : x.IsFinite) : parse x.text = .ok (number x) := by
  have hreadable : (number x).IsReadable :=
    ⟨.number x, fun y hy => List.mem_singleton.1 hy ▸ h, Nat.zero_le _⟩
  have htext : (number x).text = x.text := String.empty_append
  rw [← htext]
  exact parse_text hreadable

/-- The normal form of a text is parsed as the text is. -/
theorem parse_normal {raw normal : String} {e : Expr Binary64} (hn : normalize raw = .ok normal)
    (h : parse raw = .ok e) : parse normal = .ok e := by
  obtain ⟨normal', literals, hn', hl, hm⟩ := parse_eq_ok_iff.1 h
  obtain rfl : normal = normal' := Except.ok.inj (hn.symm.trans hn')
  exact parse_of_isExpr hl hm (isReadable_of_parse h).depth

/-- Two readable trees with the same text are the same. -/
theorem Expr.IsReadable.text_injective {e e' : Expr Binary64} (he : e.IsReadable)
    (he' : e'.IsReadable) (h : e.text = e'.text) : e = e' := by
  have hp := parse_text he
  rw [h, parse_text he'] at hp
  exact (Except.ok.inj hp).symm

theorem Expr.Reaches.isReadable {e last : Expr Binary64} (run : Reaches e last)
    (h : e.IsReadable) : last.IsReadable :=
  run.invariant (fun _ _ hp hx => hp.isReadable hx) h

/-- **Parsing undoes printing along a run**: every tree that some number of passes makes of a parsed
one is what its own text is parsed as, bit for bit. -/
theorem parse_text_of_reaches {raw : String} {e last : Expr Binary64} (h : parse raw = .ok e)
    (run : Reaches e last) : parse last.text = .ok last :=
  parse_text (run.isReadable (isReadable_of_parse h))

/-- A zero keeps its sign: one pass makes `-0` of `-(0,)`. -/
theorem parse_text_minus_zero :
    parse "-(0,)" = .ok (negate (group (number (.ofBits 0)))) ∧
      Reaches (negate (group (number (.ofBits 0)))) (number (.ofBits 0x8000000000000000)) ∧
      parse (number (.ofBits 0x8000000000000000)).text =
        .ok (number (.ofBits 0x8000000000000000)) := by
  have h : parse "-(0,)" = .ok (negate (group (number (.ofBits 0)))) := by rfl
  have run : Reaches (negate (group (number (.ofBits 0)))) (number (.ofBits 0x8000000000000000)) :=
    .pass rfl (.refl _)
  exact ⟨h, run, parse_text_of_reaches h run⟩

/-- **The text of a value evaluates to the value.**  Every finite number, of either sign and however
small or large, is written in plain digits; as a text to be evaluated they have that very number as
their value, the sign of a zero included; and no other number is written like this. -/
theorem evaluate_value_text {x : Binary64} (h : x.IsFinite) :
    Binary64.IsPlain x.text.toList ∧ evaluate x.text = .ok x ∧
      ∀ y : Binary64, x.text = y.text → x = y := by
  refine ⟨Binary64.isPlain_text h, ?_, fun y => Binary64.eq_of_text_eq h⟩
  rw [evaluate_eq_reduce (parse_value_text h), reduce]

/-- The negative number nearest to zero, which is subnormal, and the text of minus zero. -/
theorem evaluate_value_text_subnormal :
    (Binary64.ofBits 0x8000000000000001).IsFinite ∧
      evaluate (Binary64.ofBits 0x8000000000000001).text = .ok (.ofBits 0x8000000000000001) ∧
      (Binary64.ofBits 0x8000000000000000).text = "-0" ∧
      evaluate "-0" = .ok (.ofBits 0x8000000000000000) := by
  have hsmall : (Binary64.ofBits 0x8000000000000001).IsFinite := by decide
  have hzero : (Binary64.ofBits 0x8000000000000000).IsFinite := by decide
  have htext : (Binary64.ofBits 0x8000000000000000).text = "-0" := by decide +kernel
  have hminus := (evaluate_value_text hzero).2.1
  rw [htext] at hminus
  exact ⟨hsmall, (evaluate_value_text hsmall).2.1, htext, hminus⟩

end Calculator
