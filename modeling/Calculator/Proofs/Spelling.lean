import Calculator.Proofs.Failure
import Calculator.Proofs.Substitution
import Calculator.Proofs.Verdict
import Mathlib.Algebra.GroupWithZero.Nat

/-!
# Spelling is invisible

A text may be spelled in other ways without meaning anything else: blanks may be put in anywhere,
and a comma may stand for a dot and a dot for a comma.  `Respelled` says that a text is another
spelling of a text, and keeps which blanks were put in at which place, because the place of a
character moves with them.

Texts that differ in their spelling only are answered alike, in every respect: values, trees, traces
and errors.  The reason is that they have the same normal form
(`Respelled.form_eq`), and that all positions are counted there.

The one exception is an error that comes before there is a normal form.  A foreign character is
reported with its place in the text as it was given, and that place moves with the blanks before it
(`Respelled.firstForeign?_eq_some`).
-/

set_option autoImplicit false

namespace Calculator

open Calculator.Normal

/-! ## Other spellings -/

/-- The same character, or the other decimal separator. -/
def SameLetter (c c' : Char) : Prop := c = c' ∨ (c = ',' ∧ c' = '.') ∨ (c = '.' ∧ c' = ',')

/-- The second text is the first with blanks put in and some separators exchanged.  The `gaps` are
the blanks that are put in before each character, and at last those at the end. -/
inductive Respelled : List (List Char) → List Char → List Char → Prop
  | nil {gap : List Char} (blank : ∀ b ∈ gap, isBlank b = true) : Respelled [gap] [] gap
  | cons {gap : List Char} {gaps : List (List Char)} {c c' : Char} {raw raw' : List Char}
      (blank : ∀ b ∈ gap, isBlank b = true) (same : SameLetter c c')
      (rest : Respelled gaps raw raw') : Respelled (gap :: gaps) (c :: raw) (gap ++ c' :: raw')

/-- How many blanks are put in before the character at a place. -/
def insertedBefore (gaps : List (List Char)) (position : Nat) : Nat :=
  ((gaps.take (position + 1)).map List.length).sum

/-! ## One character -/

section SameLetter

variable {c c' : Char}

theorem SameLetter.isBlank_eq (h : SameLetter c c') : isBlank c' = isBlank c := by
  rcases h with rfl | ⟨rfl, rfl⟩ | ⟨rfl, rfl⟩ <;> rfl

theorem SameLetter.isPermitted_eq (h : SameLetter c c') : isPermitted c' = isPermitted c := by
  rcases h with rfl | ⟨rfl, rfl⟩ | ⟨rfl, rfl⟩ <;> rfl

theorem SameLetter.unifySeparator_eq (h : SameLetter c c') :
    unifySeparator c' = unifySeparator c := by
  rcases h with rfl | ⟨rfl, rfl⟩ | ⟨rfl, rfl⟩ <;> rfl

theorem SameLetter.isForeign_iff (h : SameLetter c c') : IsForeign c' ↔ IsForeign c := by
  rw [IsForeign, IsForeign, h.isBlank_eq, h.isPermitted_eq]

/-- A foreign character is no separator, so there is no other for it. -/
theorem SameLetter.eq_of_isForeign (h : SameLetter c c') (hforeign : IsForeign c) : c' = c := by
  rcases h with rfl | ⟨rfl, rfl⟩ | ⟨rfl, rfl⟩
  · rfl
  · exact absurd hforeign.2 (by decide)
  · exact absurd hforeign.2 (by decide)

theorem not_isForeign_iff : ¬ IsForeign c ↔ isBlank c = true ∨ isPermitted c = true := by
  rw [IsForeign, not_and_or, Bool.not_eq_false, Bool.not_eq_false]

end SameLetter

/-! ## The normal form -/

namespace Respelled

variable {gaps : List (List Char)} {raw raw' : List Char}

theorem form_of_isBlank {gap : List Char} (blank : ∀ b ∈ gap, isBlank b = true) :
    form gap = [] := by
  rw [form, List.filter_eq_nil_iff.2 fun b hb => by simp [blank b hb], List.map_nil]

/-- **Another spelling has the same normal form.** -/
theorem form_eq (h : Respelled gaps raw raw') : form raw' = form raw := by
  induction h with
  | nil blank => rw [form_of_isBlank blank, form, List.filter_nil, List.map_nil]
  | @cons gap gaps c c' raw raw' blank same _ ih =>
    have hletter : form [c'] = form [c] := by
      simp only [form, List.filter_cons, List.filter_nil, same.isBlank_eq]
      split
      · rw [List.map_singleton, List.map_singleton, same.unifySeparator_eq]
      · rfl
    rw [form_append, form_of_isBlank blank, List.nil_append, ← List.singleton_append, form_append,
      hletter, ih, ← form_append, List.singleton_append]

/-! ## Foreign characters -/

theorem firstForeign?_eq_none_iff (h : Respelled gaps raw raw') :
    firstForeign? raw' = none ↔ firstForeign? raw = none := by
  rw [Normal.firstForeign?_eq_none_iff, Normal.firstForeign?_eq_none_iff]
  induction h with
  | nil blank =>
    exact ⟨fun _ c hc => (by cases hc), fun _ c hc => .inl (blank c hc)⟩
  | cons blank same _ ih =>
    rw [List.forall_mem_append, List.forall_mem_cons, List.forall_mem_cons, same.isBlank_eq,
      same.isPermitted_eq, ih]
    exact and_iff_right fun b hb => .inl (blank b hb)

/-- A place in a text, in another spelling of it: the character there is the same but for the
separator, before it there are as many more characters as blanks were put in, and those are the
characters before it in the text and blanks. -/
theorem exists_split {before after : List Char} {c : Char} :
    ∀ {gaps raw'}, Respelled gaps (before ++ c :: after) raw' →
      ∃ before' c' after', raw' = before' ++ c' :: after' ∧ SameLetter c c' ∧
        before'.length = before.length + insertedBefore gaps before.length ∧
        ∀ d' ∈ before', isBlank d' = true ∨ ∃ d ∈ before, SameLetter d d' := by
  induction before with
  | nil =>
    intro gaps raw' h
    cases h with
    | @cons gap gaps _ c' _ raw' blank same _ =>
      exact ⟨gap, c', raw', rfl, same, by simp [insertedBefore], fun d' hd => .inl (blank d' hd)⟩
  | cons d before ih =>
    intro gaps raw' h
    cases h with
    | @cons gap gaps _ d' _ raw' blank same rest =>
      obtain ⟨before', c', after', rfl, hc, hlength, hbefore⟩ := ih rest
      refine ⟨gap ++ d' :: before', c', after', by simp, hc, ?_, ?_⟩
      · rw [List.length_append, List.length_cons, List.length_cons, hlength, insertedBefore,
          insertedBefore, List.take_succ_cons, List.map_cons, List.sum_cons]
        omega
      · rw [List.forall_mem_append, List.forall_mem_cons]
        refine ⟨fun b hb => .inl (blank b hb), .inr ⟨d, .head _, same⟩, fun b hb => ?_⟩
        exact (hbefore b hb).imp_right fun ⟨d, hd, hsame⟩ => ⟨d, .tail _ hd, hsame⟩

/-- **The first foreign character moves with the blanks before it.** -/
theorem firstForeign?_eq_some (h : Respelled gaps raw raw') {c : Char} {position : Nat}
    (hfirst : firstForeign? raw = some (c, position)) :
    firstForeign? raw' = some (c, position + insertedBefore gaps position) := by
  obtain ⟨⟨⟨d, hd, hforeign⟩, hleast⟩, hc⟩ := firstForeign?_eq_some_iff.1 hfirst
  obtain rfl : d = c := Option.some.inj (hd.symm.trans hc)
  obtain ⟨hlt, hget⟩ := List.getElem?_eq_some_iff.1 hc
  have hsplit : raw = raw.take position ++ d :: raw.drop (position + 1) := by
    rw [← hget, List.getElem_cons_drop, List.take_append_drop]
  have hplace : (raw.take position).length = position :=
    List.length_take_of_le (Nat.le_of_lt hlt)
  rw [hsplit] at h
  obtain ⟨before', c', after', rfl, hsame, hlength, hbefore⟩ := h.exists_split
  rw [hplace] at hlength
  obtain rfl := hsame.eq_of_isForeign hforeign
  have hat : (before' ++ c' :: after')[before'.length]? = some c' := by simp
  rw [← hlength, firstForeign?_eq_some_iff]
  refine ⟨⟨⟨c', hat, hforeign⟩, ?_⟩, hat⟩
  -- what stands before it is blank, or another spelling of what is not foreign
  rintro j ⟨d', hd', hforeign'⟩
  refine Nat.le_of_not_lt fun hj => ?_
  rw [List.getElem?_append_left hj] at hd'
  rcases hbefore d' (List.mem_of_getElem? hd') with hblank | ⟨d, hd, hsame'⟩
  · exact not_isForeign_iff.2 (.inl hblank) hforeign'
  · obtain ⟨i, hi⟩ := List.getElem?_of_mem hd
    have hi' : i < position := hplace ▸ (List.getElem?_eq_some_iff.1 hi).1
    rw [List.getElem?_take_of_lt hi'] at hi
    have hle : position ≤ i := hleast ⟨d, hi, hsame'.isForeign_iff.1 hforeign'⟩
    omega

end Respelled

/-! ## The answers -/

/-- Two texts are answered alike. -/
structure AnsweredAlike (raw raw' : String) : Prop where
  parse : parse raw' = parse raw
  evaluate : evaluate raw' = evaluate raw
  trace : trace raw' = trace raw

/-- Whatever is asked of a text, the answer is the same error. -/
structure FailsWith (raw : String) (failure : EvalError) : Prop where
  parse : parse raw = .error failure
  evaluate : evaluate raw = .error failure
  trace : trace raw = .error failure

variable {raw raw' : String}

theorem AnsweredAlike.of_normalize_eq (h : normalize raw' = normalize raw) :
    AnsweredAlike raw raw' := by
  have hparse : Calculator.parse raw' = Calculator.parse raw := by
    rw [Calculator.parse, Calculator.parse, h]
  refine ⟨hparse, ?_, ?_⟩
  · rw [Calculator.evaluate, Calculator.evaluate, hparse]
  · rw [Calculator.trace, Calculator.trace, h]

theorem FailsWith.of_normalize_eq {failure : EvalError} (h : normalize raw = .error failure) :
    FailsWith raw failure := by
  have hparse := parse_eq_error h
  exact ⟨hparse, evaluate_eq_error_of_parse hparse, trace_eq_error_of_parse hparse⟩

theorem normalize_eq_error_of_firstForeign? {c : Char} {position : Nat}
    (h : firstForeign? raw.toList = some (c, position)) :
    normalize raw = .error (.invalidCharacter c position) := by
  rw [normalize, validate, h]
  rfl

/-- **Spelling is invisible.**  Blanks may be put in anywhere, inside of numbers too, and separators
may be exchanged.  If there is no foreign character on either side, then reading, evaluating and
tracing answer both texts alike, with the same places in the errors.  Otherwise all of them fail on
both texts for the same foreign character, and its place has moved by as many characters as blanks
were put in before it. -/
theorem spelling_is_invisible {gaps : List (List Char)}
    (h : Respelled gaps raw.toList raw'.toList) :
    ((∀ c ∈ raw.toList, ¬ IsForeign c) ∧ (∀ c ∈ raw'.toList, ¬ IsForeign c) →
      AnsweredAlike raw raw') ∧
    (¬ ((∀ c ∈ raw.toList, ¬ IsForeign c) ∧ ∀ c ∈ raw'.toList, ¬ IsForeign c) →
      ∃ c position, IsForeign c ∧ FailsWith raw (.invalidCharacter c position) ∧
        FailsWith raw' (.invalidCharacter c (position + insertedBefore gaps position))) := by
  simp only [not_isForeign_iff]
  rw [← firstForeign?_eq_none_iff, ← firstForeign?_eq_none_iff, h.firstForeign?_eq_none_iff,
    and_self]
  constructor
  · intro hraw
    refine .of_normalize_eq ?_
    rw [normalize, normalize, validate, validate, hraw, h.firstForeign?_eq_none_iff.2 hraw]
    simp only [h.form_eq]
  · intro hraw
    obtain ⟨⟨c, position⟩, hfirst⟩ := Option.ne_none_iff_exists'.1 hraw
    have hfirst' := h.firstForeign?_eq_some hfirst
    obtain ⟨⟨⟨d, hd, hforeign⟩, -⟩, hc⟩ := firstForeign?_eq_some_iff.1 hfirst
    obtain rfl : d = c := Option.some.inj (hd.symm.trans hc)
    exact ⟨d, position, hforeign, .of_normalize_eq (normalize_eq_error_of_firstForeign? hfirst),
      .of_normalize_eq (normalize_eq_error_of_firstForeign? hfirst')⟩

/-- In `1,5`, an ideographic space before the number and another space inside of it make no
difference; in `1+x` the same two put the letter two places further. -/
theorem spelling_is_invisible_spaces :
    Respelled [['\u3000'], [' '], [], []] "1,5".toList "\u30001 .5".toList ∧
      evaluate "\u30001 .5" = evaluate "1,5" ∧
      Respelled [['\u3000'], [' '], [], ['\n']] "1+x".toList "\u30001 +x\n".toList ∧
      evaluate "1+x" = .error (.invalidCharacter 'x' 2) ∧
      evaluate "\u30001 +x\n" = .error (.invalidCharacter 'x' 4) := by
  have hideographic : ∀ b ∈ ['\u3000'], isBlank b = true := List.all_eq_true.1 (by decide)
  have hspace : ∀ b ∈ [' '], isBlank b = true := List.all_eq_true.1 (by decide)
  have hfeed : ∀ b ∈ ['\n'], isBlank b = true := List.all_eq_true.1 (by decide)
  have hnothing : ∀ b ∈ [], isBlank b = true := List.all_eq_true.1 (by decide)
  have hnumber : Respelled [['\u3000'], [' '], [], []] "1,5".toList "\u30001 .5".toList :=
    .cons hideographic (.inl rfl) <| .cons hspace (.inr (.inl ⟨rfl, rfl⟩)) <|
      .cons hnothing (.inl rfl) <| .nil hnothing
  have hletter : Respelled [['\u3000'], [' '], [], ['\n']] "1+x".toList "\u30001 +x\n".toList :=
    .cons hideographic (.inl rfl) <| .cons hspace (.inl rfl) <|
      .cons hnothing (.inl rfl) <| .nil hfeed
  have hknown : ∀ raw : List Char, firstForeign? raw = none → ∀ c ∈ raw, ¬ IsForeign c :=
    fun raw h c hc => not_isForeign_iff.2 (firstForeign?_eq_none_iff.1 h c hc)
  have halike := (spelling_is_invisible hnumber).1 ⟨hknown _ (by decide), hknown _ (by decide)⟩
  obtain ⟨c, position, -, hraw, hraw'⟩ := (spelling_is_invisible hletter).2
    fun h => h.1 'x' (by decide) (by decide)
  have hfailure : evaluate "1+x" = .error (.invalidCharacter 'x' 2) := by rfl
  obtain ⟨rfl, rfl⟩ := EvalError.invalidCharacter.inj
    (Except.error.inj (hfailure.symm.trans hraw.evaluate))
  exact ⟨hnumber, halike.evaluate, hletter, hfailure, hraw'.evaluate⟩

end Calculator
