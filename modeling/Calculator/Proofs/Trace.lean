import Calculator.Proofs.RoundTrip
import Mathlib.Data.List.Chain

/-!
# The lines of a trace

Every line of a trace is a text in its own right, and evaluating it gives the value at the end of
the trace, bit for bit.  This is `trace_isFaithful`.

The first line is the normal form, which is parsed as the text is.  All others are texts of trees
that the run reaches, so they are parsed as these trees, and a run keeps the value.  Neither this
nor the difference of two neighbouring lines needs a look at a single character: a pass makes a
different tree, and different trees have different texts.
-/

set_option autoImplicit false

namespace Calculator

open Calculator.Expr

/-! ## The trees of a run -/

namespace Expr

theorem reaches_of_mem_passes (e : Expr Binary64) :
    ∀ last ∈ e :: e.passes.trees, Reaches e last := by
  induction e using passInduction with
  | number value =>
    intro last hl
    rw [passes_number] at hl
    rw [List.mem_singleton.1 hl]
    exact .refl _
  | failed e failure h =>
    intro last hl
    rw [passes_eq_of_error h] at hl
    rw [List.mem_singleton.1 hl]
    exact .refl _
  | moved e next h ih =>
    intro last hl
    rw [passes_eq_of_moved h] at hl
    rcases List.mem_cons.1 hl with rfl | hl
    · exact .refl _
    · exact .pass (step_eq_some_iff.2 h) (ih last hl)

/-- A run that gives a value ends at the number. -/
theorem getLast?_passes {e : Expr Binary64} {value : Binary64} (h : e.reduce = .ok value) :
    (e :: e.passes.trees).getLast? = some (number value) := by
  induction e using passInduction with
  | number v =>
    rw [reduce] at h
    rw [passes_number, Except.ok.inj h]
    rfl
  | failed e failure hf =>
    obtain ⟨failure', he⟩ := (fault_of_advance hf).reduce_eq_error
    rw [he] at h
    cases h
  | moved e next hm ih =>
    rw [← (pass_of_advance hm).reduce_eq] at h
    rw [passes_eq_of_moved hm, List.getLast?_cons_cons]
    exact ih h

theorem ne_of_advance {e next : Expr Binary64} (h : advance e = .ok (.moved next)) : e ≠ next := by
  rintro rfl
  have := passCount_of_advance e e h
  omega

/-- **No pass leaves the text of a readable tree as it is.** -/
theorem isChain_text_passes (e : Expr Binary64) (he : e.IsReadable) :
    ((e :: e.passes.trees).map text).IsChain (· ≠ ·) := by
  induction e using passInduction with
  | number value =>
    rw [passes_number]
    exact .singleton _
  | failed e failure h =>
    rw [passes_eq_of_error h]
    exact .singleton _
  | moved e next h ih =>
    have hnext := (pass_of_advance h).isReadable he
    rw [passes_eq_of_moved h, List.map_cons, List.map_cons]
    exact .cons_cons (fun htext => ne_of_advance h (he.text_injective hnext htext)) (ih hnext)

end Expr

/-! ## The lines -/

/-- The lines lead from a normal form to the text of a number, every line is another text than the
one before it, and all of them have that number as their value. -/
structure IsFaithful (normal : String) (value : Binary64) (lines : List String) : Prop where
  head : lines.head? = some normal
  last : lines.getLast? = some value.text
  distinct : lines.IsChain (· ≠ ·)
  evaluates : ∀ line ∈ lines, evaluate line = .ok value

/-- The texts of the trees of a run that begins with a readable tree. -/
theorem isFaithful_passes {e : Expr Binary64} {value : Binary64} (he : e.IsReadable)
    (h : e.reduce = .ok value) :
    IsFaithful e.text value ((e :: e.passes.trees).map text) where
  head := rfl
  last := by
    rw [List.getLast?_map, getLast?_passes h]
    rfl
  distinct := isChain_text_passes e he
  evaluates := by
    intro line hline
    obtain ⟨last, hl, rfl⟩ := List.mem_map.1 hline
    have run := reaches_of_mem_passes e last hl
    exact evaluate_eq_ok_iff.2 ⟨last, parse_text (run.isReadable he), run.reduce_eq.trans h⟩

theorem IsFaithful.cons {normal first : String} {value : Binary64} {lines : List String}
    (h : IsFaithful first value lines) (hne : normal ≠ first)
    (hn : evaluate normal = .ok value) : IsFaithful normal value (normal :: lines) := by
  obtain ⟨tail, rfl⟩ := List.head?_eq_some_iff.1 h.head
  refine ⟨rfl, ?_, .cons_cons hne h.distinct, fun line hl => ?_⟩
  · rw [List.getLast?_cons_cons]
    exact h.last
  · rcases List.mem_cons.1 hl with rfl | hl
    · exact hn
    · exact h.evaluates line hl

theorem trace_eq_of_parse {raw normal : String} {e : Expr Binary64} {value : Binary64}
    (hn : normalize raw = .ok normal) (hp : parse raw = .ok e) (h : e.reduce = .ok value) :
    trace raw = .ok (if e.text = normal then (e :: e.passes.trees).map text
      else normal :: (e :: e.passes.trees).map text) := by
  have ht : e.trace = .ok ((e :: e.passes.trees).map text) :=
    trace_eq_ok_iff.2 ⟨(failure_passes_eq_none_iff e).2 ⟨value, h⟩, rfl⟩
  rw [trace_eq_bind hn hp, ht, ok_bind]
  simp [pure, Except.pure]

/-- **Every line of a trace is a faithful program.**  Where a text has a value, it has a trace; the
trace leads from the normal form to the text of the value, no line is there twice in a row, and
evaluating any of the lines gives the same bits. -/
theorem trace_isFaithful {raw : String} {value : Binary64} (h : evaluate raw = .ok value) :
    ∃ normal lines, normalize raw = .ok normal ∧ trace raw = .ok lines ∧
      IsFaithful normal value lines := by
  obtain ⟨e, hp, hr⟩ := evaluate_eq_ok_iff.1 h
  obtain ⟨normal, literals, hn, -, -⟩ := parse_eq_ok_iff.1 hp
  have hfaithful := isFaithful_passes (isReadable_of_parse hp) hr
  refine ⟨normal, _, hn, trace_eq_of_parse hn hp hr, ?_⟩
  by_cases htext : e.text = normal
  · rw [if_pos htext, ← htext]
    exact hfaithful
  · rw [if_neg htext]
    exact hfaithful.cons (Ne.symm htext) (evaluate_eq_ok_iff.2 ⟨e, parse_normal hn hp, hr⟩)

/-- The trace of `-(0,)` ends in a zero with its sign. -/
theorem trace_isFaithful_minus_zero :
    evaluate "-(0,)" = .ok (.ofBits 0x8000000000000000) ∧
      ∃ normal lines, normalize "-(0,)" = .ok normal ∧ trace "-(0,)" = .ok lines ∧
        IsFaithful normal (.ofBits 0x8000000000000000) lines := by
  have h : evaluate "-(0,)" = .ok (.ofBits 0x8000000000000000) := by rfl
  exact ⟨h, trace_isFaithful h⟩

end Calculator
