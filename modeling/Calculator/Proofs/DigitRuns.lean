import Calculator.Expr.Meaning
import Calculator.Proofs.Reading

/-!
# The runs in a derivation

A derivation says which texts are operands, and not where a run has to end: that `12` is one operand
and not two is nowhere in it.  It need not be, since two operands never stand side by side.  So the
literals of the tree are the runs of the text, each as long as it can be, from left to right and
with none left out (`listsRuns_of_isExpr`).

The induction is on the derivation, and what carries it is how texts are put together.  Where no run
goes on from one text into the next, the runs of both are those of the two (`ListsRuns.append`).
-/

set_option autoImplicit false

namespace Calculator

open Grammar

/-! ## Texts side by side -/

namespace Grammar

/-- No run goes on from one text into the other where they stand side by side. -/
def AreApart (left right : List Char) : Prop :=
  ∀ c ∈ left.getLast?, ∀ d ∈ right.head?, isNumeralChar c = false ∨ isNumeralChar d = false

theorem areApart_of_left {left : List Char} (h : ∀ c ∈ left, isNumeralChar c = false)
    (right : List Char) : AreApart left right :=
  fun c hc _ _ => .inl (h c (List.mem_of_getLast? hc))

theorem areApart_of_right (left : List Char) {right : List Char}
    (h : ∀ d ∈ right.head?, isNumeralChar d = false) : AreApart left right :=
  fun _ _ d hd => .inr (h d hd)

theorem areApart_nil_left (right : List Char) : AreApart [] right :=
  areApart_of_left (fun c hc => by cases hc) right

theorem areApart_nil_right (left : List Char) : AreApart left [] :=
  areApart_of_right left (fun d hd => by cases hd)

end Grammar

namespace Literal

variable {literal : Literal} {position : Nat} {text left right : List Char}

theorem StandsIn.le (h : literal.StandsIn position text) : position ≤ literal.position := by
  obtain ⟨-, before, after, -, hposition, -⟩ := h
  omega

theorem StandsIn.lt (h : literal.StandsIn position text) :
    literal.position < position + text.length := by
  obtain ⟨hrun, before, after, rfl, hposition, -⟩ := h
  have hpos : 0 < literal.run.length := List.length_pos_iff.2 hrun.ne_nil
  rw [List.length_append, List.length_append]
  omega

/-- A literal stands in every longer text, unless its run goes on there. -/
theorem StandsIn.extend (left right : List Char)
    (h : literal.StandsIn (position + left.length) text)
    (hleft : AreApart left text) (hright : AreApart text right) :
    literal.StandsIn position (left ++ text ++ right) := by
  obtain ⟨hrun, before, after, rfl, hposition, hbefore, hafter⟩ := h
  refine ⟨hrun, left ++ before, after ++ right, by simp, by simp [hposition, Nat.add_assoc], ?_, ?_⟩
  · intro c hc
    rw [List.getLast?_append] at hc
    cases hb : before.getLast? with
    | some b =>
      rw [hb] at hc
      exact hbefore c (hb ▸ hc)
    | none =>
      -- the run is at the beginning of the text, so it is its first character that is next to `c`
      obtain rfl := List.getLast?_eq_none_iff.1 hb
      obtain ⟨d, run, hd⟩ := List.exists_cons_of_ne_nil hrun.ne_nil
      have hnumeral := hrun.all d (by simp [hd])
      have := hleft c (by simpa using hc) d (by simp [hd])
      simpa [hnumeral] using this
  · intro c hc
    rw [List.head?_append] at hc
    cases ha : after.head? with
    | some a =>
      rw [ha] at hc
      exact hafter c (ha ▸ hc)
    | none =>
      obtain rfl := List.head?_eq_none_iff.1 ha
      have hlast := List.getLast?_eq_some_getLast hrun.ne_nil
      have hnumeral := hrun.all _ (List.getLast_mem hrun.ne_nil)
      have := hright (literal.run.getLast hrun.ne_nil) (by simp [List.getLast?_append, hlast]) c
        (by simpa using hc)
      simpa [hnumeral] using this

/-- A literal that stands in two texts side by side stands in one of them. -/
theorem StandsIn.of_append (h : literal.StandsIn position (left ++ right))
    (hapart : AreApart left right) :
    literal.StandsIn position left ∨ literal.StandsIn (position + left.length) right := by
  obtain ⟨hrun, before, after, hsplit, hposition, hbefore, hafter⟩ := h
  rcases List.append_eq_append_iff.1 hsplit with ⟨middle, hmiddle, rfl⟩ | ⟨middle, rfl, rfl⟩
  · rcases List.append_eq_append_iff.1 hmiddle with ⟨middle', rfl, hrun'⟩ | ⟨middle', rfl, rfl⟩
    · -- the texts meet within the run, or at an end of it
      rcases List.eq_nil_or_concat middle' with rfl | ⟨begun, c, rfl⟩
      · rw [List.nil_append] at hrun'
        refine .inr ⟨hrun, [], after, by rw [hrun', List.nil_append], ?_, by simp, hafter⟩
        rw [hposition, List.append_nil, List.length_nil, Nat.add_zero]
      cases middle with
      | nil =>
        rw [List.append_nil] at hrun'
        exact .inl ⟨hrun, before, [], by rw [hrun', List.append_nil], hposition, hbefore, by simp⟩
      | cons d middle =>
        have hc := hrun.all c (by simp [hrun'])
        have hd := hrun.all d (by simp [hrun'])
        have := hapart c (by simp) d (by simp)
        simp [hc, hd] at this
    · refine .inr ⟨hrun, middle', after, rfl, ?_, fun c hc => hbefore c ?_, hafter⟩
      · rw [hposition, List.length_append, Nat.add_assoc]
      · rw [List.getLast?_append, Option.mem_def.1 hc, Option.some_or, Option.mem_def]
  · refine .inl ⟨hrun, before, middle, rfl, hposition, hbefore, fun c hc => hafter c ?_⟩
    rw [List.head?_append, Option.mem_def.1 hc, Option.some_or, Option.mem_def]

end Literal

/-! ## The runs of a text -/

/-- The literals are the runs of a text, which begins at `position`, from left to right. -/
structure ListsRuns (position : Nat) (text : List Char) (literals : List Literal) : Prop where
  standsIn : ∀ literal ∈ literals, literal.StandsIn position text
  exists_mem : ∀ literal : Literal, literal.StandsIn position text →
    ∃ negative, ⟨negative, literal.run, literal.position⟩ ∈ literals
  sorted : literals.Pairwise fun literal later => literal.position < later.position

namespace ListsRuns

variable {position : Nat} {text left right run : List Char} {literals literals' : List Literal}

/-- Texts without digits and dots have no runs. -/
theorem nil (h : ∀ c ∈ text, isNumeralChar c = false) (position : Nat) :
    ListsRuns position text [] := by
  refine ⟨fun literal hl => (by cases hl), fun literal hstands => ?_, .nil⟩
  obtain ⟨hrun, before, after, rfl, -⟩ := hstands
  obtain ⟨c, hc⟩ := List.exists_mem_of_ne_nil _ hrun.ne_nil
  have hnumeral := hrun.all c hc
  rw [h c (by simp [hc])] at hnumeral
  cases hnumeral

/-- A run has no run in it but itself. -/
theorem singleton (h : IsRun run) (negative : Bool) (position : Nat) :
    ListsRuns position run [⟨negative, run, position⟩] := by
  refine ⟨fun literal hl => ?_, fun literal hstands => ?_, List.pairwise_singleton _ _⟩
  · obtain rfl := List.mem_singleton.1 hl
    exact ⟨h, [], [], by simp⟩
  · obtain ⟨negative', run', position'⟩ := literal
    obtain ⟨hrun, before, after, hsplit, hposition, hbefore, hafter⟩ := hstands
    have hbefore' : before = [] := List.getLast?_eq_none_iff.1 <|
      Option.eq_none_iff_forall_ne_some.2 fun c hc => by
        have hmem : c ∈ run := by simp [hsplit, List.mem_of_getLast? hc]
        simpa [hbefore c hc] using h.all c hmem
    have hafter' : after = [] := List.head?_eq_none_iff.1 <|
      Option.eq_none_iff_forall_ne_some.2 fun c hc => by
        have hmem : c ∈ run := by simp [hsplit, List.mem_of_head? hc]
        simpa [hafter c hc] using h.all c hmem
    simp only [hbefore', hafter', List.nil_append, List.append_nil] at hsplit
    rw [hbefore', List.length_nil, Nat.add_zero] at hposition
    obtain rfl : position' = position := hposition
    exact ⟨negative, by simp [hsplit]⟩

/-- **The runs of two texts that are apart are those of the one and those of the other.** -/
theorem append (h : ListsRuns position left literals)
    (h' : ListsRuns (position + left.length) right literals') (hapart : AreApart left right) :
    ListsRuns position (left ++ right) (literals ++ literals') := by
  refine ⟨List.forall_mem_append.2 ⟨fun literal hl => ?_, fun literal hl => ?_⟩,
    fun literal hstands => ?_, List.pairwise_append.2 ⟨h.sorted, h'.sorted, fun l hl l' hl' => ?_⟩⟩
  · exact (h.standsIn literal hl).extend [] right (areApart_nil_left _) hapart
  · have hstands := (h'.standsIn literal hl).extend left [] hapart (areApart_nil_right _)
    rwa [List.append_nil] at hstands
  · rcases hstands.of_append hapart with hstands | hstands
    · exact (h.exists_mem literal hstands).imp fun _ => List.mem_append_left _
    · exact (h'.exists_mem literal hstands).imp fun _ => List.mem_append_right _
  · exact Nat.lt_of_lt_of_le (h.standsIn l hl).lt (h'.standsIn l' hl').le

/-- What has neither digits nor dots may stand around a text. -/
theorem surround (h : ListsRuns (position + left.length) text literals)
    (hleft : ∀ c ∈ left, isNumeralChar c = false) (right : List Char)
    (hright : ∀ c ∈ right, isNumeralChar c = false) :
    ListsRuns position (left ++ text ++ right) literals := by
  have hall := ((nil hleft position).append h (areApart_of_left hleft text)).append
    (nil hright _) (areApart_of_right _ fun c hc => hright c (List.mem_of_head? hc))
  rwa [List.nil_append, List.append_nil] at hall

end ListsRuns

/-! ## The runs of a derivation -/

namespace Grammar

theorem IsRest.isNumeralChar_head? {position : Nat} {text : List Char}
    {rest : List (Operator × Expr Literal)} (h : IsRest position text rest) :
    ∀ c ∈ text.head?, isNumeralChar c = false := by
  cases h with
  | nil => rintro c ⟨⟩
  | @cons _ _ _ operator =>
    rintro c hc
    obtain rfl := Option.some.inj hc
    exact Expr.Pushdown.isNumeralChar_symbol operator

mutual

theorem listsRuns_of_isOperand {position : Nat} {text : List Char} {e : Expr Literal} :
    IsOperand position text e → ListsRuns position text e.numbers
  | .run h => .singleton h false position
  | @IsOperand.negatedRun _ run h => by
    have hrun : ListsRuns (position + ['-'].length) run _ := .singleton h true (position + 1)
    have hall := hrun.surround (List.forall_mem_singleton.2 (by decide)) [] (by simp)
    rwa [List.append_nil] at hall
  | @IsOperand.group _ text inner h => by
    have hinner : ListsRuns (position + ['('].length) text _ := listsRuns_of_isExpr h
    exact hinner.surround (List.forall_mem_singleton.2 (by decide)) [')']
      (List.forall_mem_singleton.2 (by decide))
  | @IsOperand.negatedGroup _ text inner h => by
    have hinner : ListsRuns (position + ['-', '('].length) text _ := listsRuns_of_isExpr h
    have hleft : ∀ c ∈ ['-', '('], isNumeralChar c = false :=
      List.forall_mem_cons.2 ⟨by decide, List.forall_mem_singleton.2 (by decide)⟩
    exact hinner.surround hleft [')'] (List.forall_mem_singleton.2 (by decide))

theorem listsRuns_of_isRest {position : Nat} {text : List Char}
    {rest : List (Operator × Expr Literal)} :
    IsRest position text rest → ListsRuns position text (Expr.numbersRest rest)
  | .nil => .nil (by simp) position
  | @IsRest.cons _ text text' operator operand rest h hrest => by
    have hsymbol : ∀ c ∈ [operator.symbol], isNumeralChar c = false :=
      List.forall_mem_singleton.2 (Expr.Pushdown.isNumeralChar_symbol operator)
    have hoperand : ListsRuns (position + [operator.symbol].length) text _ :=
      listsRuns_of_isOperand h
    have hlink := hoperand.surround hsymbol [] (by simp)
    have hposition : position + 1 + text.length =
        position + ([operator.symbol] ++ text ++ []).length := by
      simp only [List.append_nil, List.cons_append, List.nil_append, List.length_cons]
      omega
    have hall := hlink.append (hposition ▸ listsRuns_of_isRest hrest)
      (areApart_of_right _ hrest.isNumeralChar_head?)
    rwa [List.append_nil] at hall

/-- **The literals of a derivation are the runs of its text**, from left to right. -/
theorem listsRuns_of_isExpr {position : Nat} {text : List Char} {e : Expr Literal} :
    IsExpr position text e → ListsRuns position text e.numbers
  | @IsExpr.intro _ text text' first rest h hrest => by
    rw [Expr.numbers_ofChain]
    exact (listsRuns_of_isOperand h).append (listsRuns_of_isRest hrest)
      (areApart_of_right _ hrest.isNumeralChar_head?)

end

/-- In a derivation a run ends only where it has to. -/
theorem standsIn_of_isExpr {position : Nat} {text : List Char} {e : Expr Literal}
    (h : IsExpr position text e) : ∀ literal ∈ e.numbers, literal.StandsIn position text :=
  (listsRuns_of_isExpr h).standsIn

end Grammar
end Calculator
