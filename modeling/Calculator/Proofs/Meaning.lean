import Calculator.Expr.Meaning
import Calculator.Proofs.DigitRuns
import Calculator.Proofs.Mapping
import Calculator.Proofs.NumberText

/-!
# Reading is the inverse of the grammar

`Expr.parse` reads a text in two goes.  A machine finds the tree of literals, and then the literals
are replaced by their values, one by one, until one has none.  Here both are compared with what the
text is written for.

* `Decimal.ofNumeral?_eq_some_iff` — the runs that are read as decimals are the numerals, and they
  are read as the decimals they are written for.
* `mapM_eq_ok_iff` — replacing the numbers of a tree succeeds if it does at every place, and then it
  makes the tree that has the values there.
* `parse_eq_ok_iff_isExpr` — a derivation has no choice where a run ends, so a text is read as a
  tree exactly if it has a derivation that denotes the tree, and it never has derivations of two
  trees.
-/

set_option autoImplicit false

namespace Calculator

/-! ## Runs that are numerals -/

/-- A run has no dot, or it can be cut at the first one. -/
theorem exists_split_dot {run : List Char} (h : ∀ c ∈ run, isNumeralChar c = true) :
    (∀ c ∈ run, c.isDigit = true) ∨
      ∃ whole places, run = whole ++ '.' :: places ∧ (∀ c ∈ whole, c.isDigit = true) ∧
        ∀ c ∈ places, isNumeralChar c = true := by
  induction run with
  | nil => exact .inl fun c hc => (by cases hc)
  | cons c run ih =>
    have hrun : ∀ d ∈ run, isNumeralChar d = true := fun d hd => h d (.tail _ hd)
    by_cases hc : c = '.'
    · exact .inr ⟨[], run, by rw [hc, List.nil_append], fun d hd => (by cases hd), hrun⟩
    have hdigit : c.isDigit = true := by simpa [isNumeralChar, hc] using h c (.head _)
    rcases ih hrun with hall | ⟨whole, places, rfl, hwhole, hplaces⟩
    · exact .inl (List.forall_mem_cons.2 ⟨hdigit, hall⟩)
    · exact .inr ⟨c :: whole, places, rfl, List.forall_mem_cons.2 ⟨hdigit, hwhole⟩, hplaces⟩

theorem count_dot_eq_zero {digits : List Char} (h : ∀ c ∈ digits, c.isDigit = true) :
    digits.count '.' = 0 :=
  List.count_eq_zero.2 fun hdot => absurd (h '.' hdot) (by decide)

/-- After the first dot of a numeral there is no other. -/
theorem isNumeral_split_iff {whole places : List Char} (hwhole : ∀ c ∈ whole, c.isDigit = true)
    (hplaces : ∀ c ∈ places, isNumeralChar c = true) :
    IsNumeral (whole ++ '.' :: places) ↔
      whole ++ places ≠ [] ∧ ∀ c ∈ places, c.isDigit = true := by
  have hcount : (whole ++ '.' :: places).count '.' = places.count '.' + 1 := by
    rw [List.count_append, count_dot_eq_zero hwhole, List.count_cons_self, Nat.zero_add]
  constructor
  · rintro ⟨⟨c, hc, hdigit⟩, hdots⟩
    have hnone : '.' ∉ places := List.count_eq_zero.1 (by omega)
    have hmem : c ∈ whole ++ places := by
      have hne : c ≠ '.' := by
        rintro rfl
        exact absurd hdigit (by decide)
      simpa [hne] using hc
    refine ⟨List.ne_nil_of_mem hmem, fun d hd => ?_⟩
    have hne : d ≠ '.' := fun heq => hnone (heq ▸ hd)
    simpa [isNumeralChar, hne] using hplaces d hd
  · rintro ⟨hne, hdigits⟩
    obtain ⟨c, hc⟩ := List.exists_mem_of_ne_nil _ hne
    refine ⟨⟨c, ?_, ?_⟩, ?_⟩
    · exact List.mem_append.2 ((List.mem_append.1 hc).imp_right (List.mem_cons_of_mem '.'))
    · exact (List.mem_append.1 hc).elim (hwhole c) (hdigits c)
    · have hzero := count_dot_eq_zero hdigits
      omega

namespace Decimal

theorem ofRun_whole {whole : List Char} (h : ∀ c ∈ whole, c.isDigit = true) :
    ofRun whole = ⟨Nat.ofDigitChars 10 whole 0, 0⟩ := by
  have hdrop : (whole ++ []).dropWhile (· != '.') = [].dropWhile (· != '.') :=
    List.dropWhile_append_of_pos fun c hc => ne_dot_of_isDigit (h c hc)
  rw [List.append_nil] at hdrop
  rw [ofRun, hdrop, List.filter_eq_self.2 h]
  rfl

theorem ofRun_point {whole places : List Char} (hwhole : ∀ c ∈ whole, c.isDigit = true)
    (hplaces : ∀ c ∈ places, c.isDigit = true) :
    ofRun (whole ++ '.' :: places) =
      ⟨Nat.ofDigitChars 10 (whole ++ places) 0, -places.length⟩ := by
  have hdrop : (whole ++ '.' :: places).dropWhile (· != '.') = '.' :: places := by
    rw [List.dropWhile_append_of_pos fun c hc => ne_dot_of_isDigit (hwhole c hc)]
    rfl
  have hcount : ('.' :: places).countP Char.isDigit = places.length := by
    rw [List.countP_cons_of_neg (by decide), List.countP_eq_length.2 hplaces]
  have hfilter : (whole ++ '.' :: places).filter Char.isDigit = whole ++ places := by
    rw [List.filter_append, List.filter_cons_of_neg (by decide), List.filter_eq_self.2 hwhole,
      List.filter_eq_self.2 hplaces]
  rw [ofRun, hdrop, hcount, hfilter]

/-- **The runs that are read as decimals are the numerals**, and each is read as the decimal that it
is written for. -/
theorem ofNumeral?_eq_some_iff {run : List Char} (h : Grammar.IsRun run) {d : Decimal} :
    ofNumeral? run = some d ↔ IsNumeral run ∧ ofRun run = d := by
  rcases exists_split_dot h.all with hwhole | ⟨whole, places, rfl, hwhole, hplaces⟩
  · have hnumeral : IsNumeral run := by
      obtain ⟨c, hc⟩ := List.exists_mem_of_ne_nil _ h.ne_nil
      exact ⟨⟨c, hc, hwhole c hc⟩, by rw [count_dot_eq_zero hwhole]; exact Nat.zero_le 1⟩
    rw [ofNumeral?_whole h.ne_nil hwhole, ofRun_whole hwhole, Option.some.injEq]
    exact ⟨fun hd => ⟨hnumeral, hd⟩, fun hd => hd.2⟩
  · rw [isNumeral_split_iff hwhole hplaces]
    by_cases hn : whole ++ places ≠ [] ∧ ∀ c ∈ places, c.isDigit = true
    · rw [ofNumeral?_point hn.1 hwhole hn.2, ofRun_point hwhole hn.2, Option.some.injEq]
      exact ⟨fun hd => ⟨hn, hd⟩, fun hd => hd.2⟩
    · have hnone : ofNumeral? (whole ++ '.' :: places) = none := by
        rw [ofNumeral?, List.takeWhile_append_of_pos fun c hc => ne_dot_of_isDigit (hwhole c hc),
          List.dropWhile_append_of_pos fun c hc => ne_dot_of_isDigit (hwhole c hc)]
        refine if_neg fun hall => hn ⟨by simpa using hall.1, fun c hc => ?_⟩
        exact List.all_eq_true.1 hall.2 c (by simp [hc])
      simp only [hnone, hn, false_and, reduceCtorEq]

/-- A decimal that is not too large is read as the number nearest to it. -/
theorem toBinary64?_eq_some_iff {d : Decimal} {x : Binary64} :
    d.toBinary64? = some x ↔ d.rounded.IsFinite ∧ d.rounded = x := by
  rw [toBinary64?]
  by_cases hlt : d.magnitude < Binary64.infinityMagnitude
  · have hmin : min d.magnitude Binary64.infinityMagnitude = d.magnitude :=
      Nat.min_eq_left (Nat.le_of_lt hlt)
    have hfinite : d.rounded.IsFinite := by
      show min d.magnitude Binary64.infinityMagnitude < _
      rwa [hmin]
    have hrounded : d.rounded = ⟨false, d.magnitude, Nat.lt_trans hlt (by decide)⟩ := by
      simp only [rounded, hmin]
    rw [dif_pos hlt, Option.some.injEq, ← hrounded]
    exact ⟨fun hx => ⟨hfinite, hx⟩, fun hx => hx.2⟩
  · have hinfinite : ¬ d.rounded.IsFinite := by
      show ¬ min d.magnitude Binary64.infinityMagnitude < _
      omega
    simp only [dif_neg hlt, hinfinite, false_and, reduceCtorEq]

end Decimal

namespace Literal

theorem isFinite_denoted (literal : Literal) :
    literal.denoted.IsFinite ↔ (Decimal.ofRun literal.run).rounded.IsFinite := by
  rw [denoted]
  cases literal.negative with
  | false => rfl
  | true => exact Binary64.isFinite_neg _

/-- **A literal has a value if its run is a numeral that is not too large**, and then the value is
what it denotes. -/
theorem value_eq_ok_iff {literal : Literal} (h : Grammar.IsRun literal.run) {value : Binary64} :
    literal.value = .ok value ↔
      (IsNumeral literal.run ∧ literal.denoted.IsFinite) ∧ literal.denoted = value := by
  rw [Literal.value, isFinite_denoted]
  by_cases hnumeral : IsNumeral literal.run
  · have hd := (Decimal.ofNumeral?_eq_some_iff h).2 ⟨hnumeral, rfl⟩
    by_cases hfinite : (Decimal.ofRun literal.run).rounded.IsFinite
    · have hb := Decimal.toBinary64?_eq_some_iff.2 ⟨hfinite, rfl⟩
      simp only [hd, hb, Except.ok.injEq]
      exact ⟨fun hv => ⟨⟨hnumeral, hfinite⟩, hv⟩, fun hv => hv.2⟩
    · have hb : (Decimal.ofRun literal.run).toBinary64? = none :=
        Option.eq_none_iff_forall_ne_some.2 fun x hx =>
          hfinite (Decimal.toBinary64?_eq_some_iff.1 hx).1
      simp only [hd, hb, hfinite, and_false, false_and, reduceCtorEq]
  · have hd : Decimal.ofNumeral? literal.run = none :=
      Option.eq_none_iff_forall_ne_some.2 fun d hd =>
        hnumeral ((Decimal.ofNumeral?_eq_some_iff h).1 hd).1
    simp only [hd, hnumeral, false_and, reduceCtorEq]

end Literal

namespace Expr

/-! ## Replacing all numbers -/

section Map

variable {α β ε : Type} {f : α → Except ε β} {g : α → β} {P : α → Prop}

theorem isMappedRest_iff {rest : List (Operator × Expr α)}
    (h : ∀ link ∈ rest, ∀ e, link.2.mapM f = .ok e ↔
      (∀ x ∈ link.2.numbers, P x) ∧ link.2.map g = e) {rest' : List (Operator × Expr β)} :
    IsMappedRest f rest rest' ↔ (∀ x ∈ numbersRest rest, P x) ∧ mapRest g rest = rest' := by
  induction rest generalizing rest' with
  | nil =>
    constructor
    · rintro ⟨⟩
      exact ⟨fun x hx => (by cases hx), rfl⟩
    · rintro ⟨-, rfl⟩
      exact .nil
  | cons link rest ih =>
    obtain ⟨operator, operand⟩ := link
    have hfirst := h (operator, operand) (.head _)
    have hrest := @ih fun link hl => h link (.tail _ hl)
    rw [numbersRest, mapRest, List.forall_mem_append]
    constructor
    · rintro (_ | ⟨ho, hr⟩)
      obtain ⟨hP, rfl⟩ := (hfirst _).1 ho
      obtain ⟨hPrest, rfl⟩ := hrest.1 hr
      exact ⟨⟨hP, hPrest⟩, rfl⟩
    · rintro ⟨⟨hP, hPrest⟩, rfl⟩
      exact .cons ((hfirst _).2 ⟨hP, rfl⟩) (hrest.2 ⟨hPrest, rfl⟩)

/-- **Replacing the numbers of a tree succeeds if it does at every place.** -/
theorem mapM_eq_ok_iff {e : Expr α} (h : ∀ x ∈ e.numbers, ∀ y, f x = .ok y ↔ P x ∧ g x = y) :
    ∀ e' : Expr β, e.mapM f = .ok e' ↔ (∀ x ∈ e.numbers, P x) ∧ e.map g = e' := by
  induction e using Expr.induction with
  | number value =>
    intro e'
    have hvalue := h value (.head _)
    simp [mapM_number_eq_ok_iff, hvalue, numbers, map, and_assoc]
  | negate inner ih =>
    intro e'
    rw [mapM_negate_eq_ok_iff]
    simp [ih h, numbers, map, and_assoc]
  | group inner ih =>
    intro e'
    rw [mapM_group_eq_ok_iff]
    simp [ih h, numbers, map, and_assoc]
  | chain first rest ihf ihr =>
    intro e'
    have hfirst := ihf fun x hx => h x (List.mem_append_left _ hx)
    have hrest := @isMappedRest_iff _ _ _ f g P rest fun link hl => ihr link hl fun x hx =>
      h x (List.mem_append_right _ (mem_numbersRest_iff.2 ⟨link, hl, hx⟩))
    rw [mapM_chain_eq_ok_iff, numbers, map, List.forall_mem_append]
    constructor
    · rintro ⟨first', rest', hf, hr, rfl⟩
      obtain ⟨hP, rfl⟩ := (hfirst _).1 hf
      obtain ⟨hPrest, rfl⟩ := hrest.1 hr
      exact ⟨⟨hP, hPrest⟩, rfl⟩
    · rintro ⟨⟨hP, hPrest⟩, rfl⟩
      exact ⟨_, _, (hfirst _).2 ⟨hP, rfl⟩, hrest.2 ⟨hPrest, rfl⟩, rfl⟩

end Map

end Expr

open Grammar

/-! ## The parser and the grammar -/

/-- The literals of a derivation are replaced if all runs are numerals that are not too large. -/
theorem mapM_value_eq_ok_iff {position : Nat} {text : List Char} {literals : Expr Literal}
    (h : IsExpr position text literals) (e : Expr Binary64) :
    literals.mapM Literal.value = .ok e ↔
      (∀ literal ∈ literals.numbers, IsNumeral literal.run ∧ literal.denoted.IsFinite) ∧
        literals.map Literal.denoted = e :=
  Expr.mapM_eq_ok_iff (fun literal hl _ =>
    Literal.value_eq_ok_iff (standsIn_of_isExpr h literal hl).isRun) e

/-- **The parser accepts exactly its grammar.**  A text is read as a tree if and only if it has a
derivation that denotes the tree, in which every run, as long as it can be, is a numeral and reads
as a finite number; and a text does not have derivations of two trees, whether its runs are numerals
or not. -/
theorem parse_eq_ok_iff_isExpr (text : List Char) :
    (∀ e, Expr.parse text = .ok e ↔
      ∃ literals, IsExpr 0 text literals ∧
        (∀ literal ∈ literals.numbers,
          literal.StandsIn 0 text ∧ IsNumeral literal.run ∧ literal.denoted.IsFinite) ∧
        literals.map Literal.denoted = e) ∧
    ∀ literals literals', IsExpr 0 text literals → IsExpr 0 text literals' →
      literals = literals' := by
  refine ⟨fun e => ?_, fun literals literals' h h' => ?_⟩
  · rw [Expr.parse, bind_eq_ok_iff]
    constructor
    · rintro ⟨literals, htext, hm⟩
      have h := Expr.ofText_eq_ok_iff.1 htext
      obtain ⟨hread, hmap⟩ := (mapM_value_eq_ok_iff h e).1 hm
      exact ⟨literals, h, fun literal hl => ⟨standsIn_of_isExpr h literal hl, hread literal hl⟩,
        hmap⟩
    · rintro ⟨literals, h, hread, hmap⟩
      exact ⟨literals, Expr.ofText_of_isExpr h,
        (mapM_value_eq_ok_iff h e).2 ⟨fun literal hl => (hread literal hl).2, hmap⟩⟩
  · exact Except.ok.inj ((Expr.ofText_of_isExpr h).symm.trans (Expr.ofText_of_isExpr h'))

/-- In `1--(.5)` the first minus sign is an operator and the second a negation, and there is no
other way to derive it. -/
theorem parse_eq_ok_iff_isExpr_two_signs :
    Expr.parse ['1', '-', '-', '(', '.', '5', ')'] =
        .ok (.binary (.number (.ofBits 0x3FF0000000000000)) .subtract
          (.negate (.group (.number (.ofBits 0x3FE0000000000000))))) ∧
      ∃ literals, IsExpr 0 ['1', '-', '-', '(', '.', '5', ')'] literals ∧
        literals.map Literal.denoted =
          .binary (.number (.ofBits 0x3FF0000000000000)) .subtract
            (.negate (.group (.number (.ofBits 0x3FE0000000000000)))) ∧
        ∀ literals', IsExpr 0 ['1', '-', '-', '(', '.', '5', ')'] literals' →
          literals' = literals := by
  have hone : Literal.value ⟨false, ['1'], 0⟩ = .ok (.ofBits 0x3FF0000000000000) :=
    Literal.value_eq_ok rfl (by decide +kernel)
  have hhalf : Literal.value ⟨false, ['.', '5'], 4⟩ = .ok (.ofBits 0x3FE0000000000000) :=
    Literal.value_eq_ok rfl (by decide +kernel)
  have hparse : Expr.parse ['1', '-', '-', '(', '.', '5', ')'] =
      .ok (.binary (.number (.ofBits 0x3FF0000000000000)) .subtract
        (.negate (.group (.number (.ofBits 0x3FE0000000000000))))) :=
    bind_eq_ok_iff.2 ⟨_, rfl, Expr.mapM_chain_eq_ok_iff.2 ⟨_, _,
      Expr.mapM_number_eq_ok_iff.2 ⟨_, hone, rfl⟩,
      .cons (Expr.mapM_negate_eq_ok_iff.2 ⟨_, Expr.mapM_group_eq_ok_iff.2 ⟨_,
        Expr.mapM_number_eq_ok_iff.2 ⟨_, hhalf, rfl⟩, rfl⟩, rfl⟩) .nil, rfl⟩⟩
  obtain ⟨hiff, hunique⟩ := parse_eq_ok_iff_isExpr ['1', '-', '-', '(', '.', '5', ')']
  obtain ⟨literals, h, -, hmap⟩ := (hiff _).1 hparse
  exact ⟨hparse, literals, h, hmap, fun literals' h' => hunique literals' literals h' h⟩

end Calculator
