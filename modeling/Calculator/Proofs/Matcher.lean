import Calculator.Expr.Matcher
import Calculator.Proofs.Viable
import Mathlib.Order.Bounds.Basic

/-!
# The matcher points where the machine stops

The matcher tries its rules and drops what fails; the machine of `Expr.ofText` goes straight on
until it is stuck.  They read the same texts (`exists_run_iff_isSentence`), and on the others the
furthest attempt of the matcher that failed began where the machine stopped
(`failsAt_iff_stopsAt`), which is the end of the longest beginning of the text that some expression
has (`failsAt_iff_isGreatest`).

The comparison goes over the patterns.  On a text that begins at `position` a pattern and the
machine

* agree on the characters they read, and no attempt failed behind them; or
* get no further than the same place.

An operand fails as a whole (`ReadsOperand`).  A chain does not (`ReadsChain`): after `1+2*` the
matcher is content with `1+2`, though the machine has gone on and awaits an operand.  What saves the
comparison is that an operator follows there, and no rule goes on with an operator after a chain.
-/

set_option autoImplicit false

namespace Calculator
namespace Matcher

open Grammar Expr.Pushdown

/-! ## The matcher is a function -/

/-- A pattern has no two runs on a text. -/
theorem Run.unique {pattern : Pattern} {position : Nat} {text : List Char} {outcome : Option Rest}
    {failed : List Nat} (h : Run pattern position text outcome failed) :
    ∀ {outcome' failed'}, Run pattern position text outcome' failed' →
      outcome = outcome' ∧ failed = failed' := by
  induction h with
  | char h =>
    rintro _ _ (_ | h')
    · exact ⟨rfl, rfl⟩
    · rw [h' _ rfl] at h
      cases h
  | noChar h =>
    rintro _ _ (h' | _)
    · rw [h _ rfl] at h'
      cases h'
    · exact ⟨rfl, rfl⟩
  | finish =>
    rintro _ _ ⟨⟩
    exact ⟨rfl, rfl⟩
  | noFinish =>
    rintro _ _ ⟨⟩
    exact ⟨rfl, rfl⟩
  | sequence _ _ ihfirst ihsecond =>
    intro outcome' failed' h'
    cases h' with
    | sequence hfirst' hsecond' =>
      obtain ⟨hrest, rfl⟩ := ihfirst hfirst'
      obtain ⟨rfl, rfl⟩ := Prod.mk.inj (Option.some.inj hrest)
      obtain ⟨rfl, rfl⟩ := ihsecond hsecond'
      exact ⟨rfl, rfl⟩
    | noSequence hfirst' => cases (ihfirst hfirst').1
  | noSequence _ ih =>
    intro outcome' failed' h'
    cases h' with
    | sequence hfirst' _ => cases (ih hfirst').1
    | noSequence hfirst' => exact ⟨rfl, (ih hfirst').2⟩
  | choice _ ih =>
    intro outcome' failed' h'
    cases h' with
    | choice hfirst' => exact ih hfirst'
    | otherChoice hfirst' _ => cases (ih hfirst').1
  | otherChoice _ _ ihfirst ihsecond =>
    intro outcome' failed' h'
    cases h' with
    | choice hfirst' => cases (ihfirst hfirst').1
    | otherChoice hfirst' hsecond' =>
      obtain ⟨-, rfl⟩ := ihfirst hfirst'
      obtain ⟨rfl, rfl⟩ := ihsecond hsecond'
      exact ⟨rfl, rfl⟩
  | optional _ ih =>
    intro outcome' failed' h'
    cases h' with
    | optional h' => exact ih h'
    | noOptional h' => cases (ih h').1
  | noOptional _ ih =>
    intro outcome' failed' h'
    cases h' with
    | optional h' => cases (ih h').1
    | noOptional h' => exact ⟨rfl, (ih h').2⟩
  | many _ _ ihinner ihmany =>
    intro outcome' failed' h'
    cases h' with
    | many hinner' hmany' =>
      obtain ⟨hrest, rfl⟩ := ihinner hinner'
      obtain ⟨rfl, rfl⟩ := Prod.mk.inj (Option.some.inj hrest)
      obtain ⟨rfl, rfl⟩ := ihmany hmany'
      exact ⟨rfl, rfl⟩
    | noMany h' => cases (ihinner h').1
  | noMany _ ih =>
    intro outcome' failed' h'
    cases h' with
    | many hinner' _ => cases (ih hinner').1
    | noMany h' => exact ⟨rfl, (ih h').2⟩
  | rule _ ih =>
    intro outcome' failed' h'
    cases h' with
    | rule h' => exact ih h'
    | noRule h' => cases (ih h').1
  | noRule _ ih =>
    intro outcome' failed' h'
    cases h' with
    | rule h' => cases (ih h').1
    | noRule h' =>
      obtain ⟨-, rfl⟩ := ih h'
      exact ⟨rfl, rfl⟩

/-! ## Single characters -/

section Characters

variable {accepts : Char → Bool} {text run rest : List Char}

theorem run_noSymbol {symbol : Char} (h : text.head? ≠ some symbol) (position : Nat) :
    Run (.char (· == symbol)) position text none [] := by
  refine .noChar fun c hc => beq_eq_false_iff_ne.2 ?_
  rintro rfl
  exact h hc

theorem run_many_char (h : ∀ c ∈ run, accepts c = true)
    (hrest : ∀ c ∈ rest.head?, accepts c = false) (position : Nat) :
    Run (.many (.char accepts)) position (run ++ rest) (some (position + run.length, rest)) [] := by
  induction run generalizing position with
  | nil => exact .noMany (.noChar hrest)
  | cons c run ih =>
    have hmany := ih (fun c hc => h c (.tail _ hc)) (position + 1)
    rw [List.length_cons, Nat.add_comm run.length, ← Nat.add_assoc]
    exact .many (.char (h c (.head _))) hmany

theorem run_number (h : IsRun run) (hrest : ∀ c ∈ rest.head?, isNumeralChar c = false)
    (position : Nat) :
    Run (.rule .number) position (run ++ rest) (some (position + run.length, rest)) [] := by
  cases run with
  | nil => exact absurd rfl h.ne_nil
  | cons c run =>
    have hmany := run_many_char (fun c hc => h.all c (.tail _ hc)) hrest (position + 1)
    rw [List.length_cons, Nat.add_comm run.length, ← Nat.add_assoc]
    exact .rule (.sequence (.char (h.all c (.head _))) hmany)

/-- A text that begins with a digit or a dot begins with a run, which is as long as it can be. -/
theorem exists_isRun (h : ¬ ∀ c ∈ text.head?, isNumeralChar c = false) :
    ∃ run rest, text = run ++ rest ∧ IsRun run ∧ ∀ c ∈ rest.head?, isNumeralChar c = false := by
  refine ⟨text.takeWhile isNumeralChar, text.dropWhile isNumeralChar,
    List.takeWhile_append_dropWhile.symm, ⟨fun hnil => ?_,
      List.all_eq_true.1 List.all_takeWhile⟩, fun c hc => ?_⟩
  · refine h fun c hc => ?_
    obtain ⟨text, rfl⟩ := List.head?_eq_some_iff.1 hc
    cases hn : isNumeralChar c with
    | false => rfl
    | true =>
      rw [List.takeWhile_cons_of_pos hn] at hnil
      cases hnil
  · have := List.head?_dropWhile_not isNumeralChar text
    simpa [Option.mem_def.1 hc] using this

theorem exists_operator (h : ¬ ∀ c ∈ text.head?, Operator.ofSymbol? c = none) :
    ∃ (operator : Operator) (rest : List Char), text = operator.symbol :: rest := by
  cases text with
  | nil => exact absurd (fun _ hc => by cases hc) h
  | cons c text =>
    cases hoperator : Operator.ofSymbol? c with
    | none => exact absurd (fun _ hc => by cases hc; exact hoperator) h
    | some operator => exact ⟨operator, text, by rw [Operator.ofSymbol?_eq_some_iff.1 hoperator]⟩

theorem run_operator (operator : Operator) (position : Nat) :
    Run (.rule .operator) position (operator.symbol :: text) (some (position + 1, text)) [] := by
  refine .rule (.char ?_)
  rw [Operator.ofSymbol?_symbol, Option.isSome_some]

theorem run_noOperator (h : ∀ c ∈ text.head?, Operator.ofSymbol? c = none) (position : Nat) :
    Run (.rule .operator) position text none [position] := by
  have hchar : Run Rule.operator.pattern position text none [] := .noChar fun c hc => by
    rw [h c hc, Option.isSome_none]
  exact .noRule hchar

end Characters

/-! ## The furthest attempt -/

section Furthest

variable {failed failed' : List Nat} {place : Nat}

theorem IsFurthest.append_right (h : IsFurthest failed place) (h' : ∀ p ∈ failed', p ≤ place) :
    IsFurthest (failed ++ failed') place :=
  ⟨List.mem_append_left _ h.1, List.forall_mem_append.2 ⟨h.2, h'⟩⟩

theorem IsFurthest.append_left (h : IsFurthest failed place) (h' : ∀ p ∈ failed', p ≤ place) :
    IsFurthest (failed' ++ failed) place :=
  ⟨List.mem_append_right _ h.1, List.forall_mem_append.2 ⟨h', h.2⟩⟩

theorem isFurthest_singleton (place : Nat) : IsFurthest [place] place :=
  ⟨.head _, fun _ hp => Nat.le_of_eq (List.mem_singleton.1 hp)⟩

theorem forall_mem_singleton_le {position : Nat} (h : position ≤ place) :
    ∀ p ∈ [position], p ≤ place := by
  simpa using h

end Furthest

/-! ## Operands -/

/-- In this state an operand may end, and it does if `rest` follows. -/
structure Ends (s : Expr.Pushdown) (last : Expr Literal) (rest : List Char) : Prop where
  operand : s.operand? = some last
  read : ∀ c ∈ rest.head?, ∀ position, s.read? position c = s.afterOperand? last c

theorem ends_of_isNumeralChar {s : Expr.Pushdown} {last : Expr Literal} {rest : List Char}
    (h : s.operand? = some last) (hrest : ∀ c ∈ rest.head?, isNumeralChar c = false) :
    Ends s last rest :=
  ⟨h, fun c hc position => read?_eq_afterOperand? h (hrest c hc) position⟩

/-- A pattern for operands does what the machine does that has read `begun` of one.  Either both
read a text that they agree on, or the pattern fails, and its furthest attempt is where the machine
stops. -/
inductive ReadsOperand (pattern : Pattern) (begun : Expr.Operand) (position : Nat)
    (text : List Char) : Prop
  | matched (read : List Char) {rest : List Char} {middle : Nat} {failed : List Nat}
      (split : text = read ++ rest) (reach : middle = position + read.length)
      (run : Run pattern position text (some (middle, rest)) failed)
      (le : ∀ p ∈ failed, p ≤ middle)
      (takes : ∀ outer before, ∃ operand last,
        Takes ⟨outer, before, begun⟩ position read ⟨outer, before, operand⟩ ∧
          Ends ⟨outer, before, operand⟩ last rest)
  | failed (place : Nat) {failed : List Nat} (run : Run pattern position text none failed)
      (furthest : IsFurthest failed place)
      (stops : ∀ outer before, StopsAt ⟨outer, before, begun⟩ position text place)

/-- A state at the beginning of a chain. -/
def BeginsChain (s : Expr.Pushdown) : Prop := s.before = [] ∧ s.operand = .awaited false

/-- A pattern for a chain, or for the rest of one, does what the machine does that starts in one of
some states.  They agree as for an operand, but for this: where the machine stops, the pattern may
have matched a part that is followed by an operator, which nothing that comes after a chain will
match. -/
inductive ReadsChain (pattern : Pattern) (starts : Expr.Pushdown → Prop) (position : Nat)
    (text : List Char) : Prop
  | matched (read : List Char) {rest : List Char} {middle : Nat} {failed : List Nat}
      (split : text = read ++ rest) (reach : middle = position + read.length)
      (run : Run pattern position text (some (middle, rest)) failed)
      (furthest : IsFurthest failed middle)
      (takes : ∀ s, starts s → ∃ s' last,
        s'.outer = s.outer ∧ Takes s position read s' ∧ Ends s' last rest)
      (noOperator : ∀ c ∈ rest.head?, Operator.ofSymbol? c = none)
  | stopped (place : Nat) {outcome : Option Rest} {failed : List Nat} (le : position ≤ place)
      (run : Run pattern position text outcome failed) (furthest : IsFurthest failed place)
      (stops : ∀ s, starts s → StopsAt s position text place)
      (blocked : ∀ middle rest, outcome = some (middle, rest) →
        middle ≤ place ∧ ∃ operator : Operator, rest.head? = some operator.symbol)

section Operand

variable {position : Nat} {text : List Char} {negated : Bool}

theorem le_of_stopsAt {s : Expr.Pushdown} {place : Nat} (h : s.StopsAt position text place) :
    position ≤ place := by
  obtain ⟨read, rest, s', -, -, rfl, -⟩ := h
  exact Nat.le_add_right _ _

/-- To attempt a rule is to attempt its pattern. -/
theorem ReadsOperand.rule {rule : Rule} {begun : Expr.Operand}
    (h : ReadsOperand rule.pattern begun position text) :
    ReadsOperand (.rule rule) begun position text := by
  cases h with
  | matched read split reach run le takes =>
    exact .matched read split reach (.rule run) le takes
  | failed place run furthest stops =>
    have hle := le_of_stopsAt (stops [] [])
    exact .failed place (.noRule run) (furthest.append_right (forall_mem_singleton_le hle)) stops

/-- Behind a chain the machine goes on with an operator, or with a `)` for the group that the chain
is in, and with nothing else. -/
theorem isStuck_of_ends {s : Expr.Pushdown} {last : Expr Literal} {c : Char} {rest : List Char}
    (h : Ends s last (c :: rest)) (noOperator : Operator.ofSymbol? c = none)
    (noClose : c = ')' → s.outer = []) (position : Nat) : s.IsStuck position (c :: rest) := by
  rw [IsStuck, h.read c rfl, afterOperand?, noOperator]
  by_cases hclose : c = ')'
  · simp only [if_pos hclose, noClose hclose]
  · simp only [if_neg hclose]

/-- **A group is read as the machine reads it**, if the chain in it is. -/
theorem readsOperand_group (h : ReadsChain (.rule .chain) BeginsChain (position + 1) text)
    (negated : Bool) : ReadsOperand (.rule .group) (.awaited negated) position ('(' :: text) := by
  have hopen : Run (.char (· == '(')) position ('(' :: text) (some (position + 1, text)) [] :=
    .char rfl
  have htakes : ∀ outer before, Takes ⟨outer, before, .awaited negated⟩ position ['(']
      ⟨⟨before, negated⟩ :: outer, [], .awaited false⟩ := fun outer before =>
    .cons (read?_open outer before negated position) (.nil _ _)
  refine .rule ?_
  cases h with
  | @matched read rest middle failed split reach run furthest takes noOperator =>
    by_cases hclose : rest.head? = some ')'
    · obtain ⟨rest, rfl⟩ := List.head?_eq_some_iff.1 hclose
      have hrun : Run Rule.group.pattern position ('(' :: text) (some (middle + 1, rest))
          ([] ++ (failed ++ [])) := .sequence hopen (.sequence run (.char rfl))
      rw [List.nil_append, List.append_nil] at hrun
      refine .matched ('(' :: (read ++ [')'])) (by rw [split]; simp) ?_ hrun
        (fun p hp => Nat.le_succ_of_le (furthest.2 p hp)) fun outer before => ?_
      · simp only [List.length_cons, List.length_append, List.length_nil]
        omega
      · obtain ⟨⟨_, before', operand⟩, last, rfl, ht, hends⟩ :=
          takes ⟨⟨before, negated⟩ :: outer, [], .awaited false⟩ ⟨rfl, rfl⟩
        exact ⟨_, _, takes_group ⟨before', operand, last, hends.operand, rfl, ht⟩, rfl,
          fun _ _ _ => rfl⟩
    · have hrun : Run Rule.group.pattern position ('(' :: text) none ([] ++ (failed ++ [])) :=
        .sequence hopen (.sequence run (run_noSymbol hclose middle))
      rw [List.nil_append, List.append_nil] at hrun
      refine .failed middle hrun furthest fun outer before => ?_
      obtain ⟨⟨_, before', operand⟩, last, rfl, ht, hends⟩ :=
        takes ⟨⟨before, negated⟩ :: outer, [], .awaited false⟩ ⟨rfl, rfl⟩
      have hstuck : IsStuck ⟨⟨before, negated⟩ :: outer, before', operand⟩ middle rest := by
        cases rest with
        | nil => rfl
        | cons c rest =>
          exact isStuck_of_ends hends (noOperator c rfl)
            (fun hc => absurd (congrArg some hc) hclose) middle
      rw [split]
      rw [reach] at hstuck ⊢
      exact (htakes outer before).stopsAt (ht.stopsAt hstuck.stopsAt)
  | @stopped place outcome failed le run furthest stops blocked =>
    have hinner : Run (.sequence (.rule .chain) (.char (· == ')'))) (position + 1) text none
        failed := by
      cases outcome with
      | none => exact .noSequence run
      | some rest =>
        -- the chain has been matched in part, but no `)` follows there
        obtain ⟨-, operator, hoperator⟩ := blocked rest.1 rest.2 rfl
        have hclose : rest.2.head? ≠ some ')' := by
          rw [hoperator]
          cases operator <;> decide
        rw [← List.append_nil failed]
        exact .sequence run (run_noSymbol hclose rest.1)
    exact .failed place (.sequence hopen hinner) furthest fun outer before =>
      (htakes outer before).stopsAt (stops _ ⟨rfl, rfl⟩)

/-- An operand that is no run begins with a parenthesis. -/
theorem isStuck_awaited (outer : List Expr.Frame) (before : List (Expr Literal × Operator))
    (hnumeral : ∀ c ∈ text.head?, isNumeralChar c = false) (hopen : text.head? ≠ some '(')
    (hminus : text.head? = some '-' → negated = true) :
    IsStuck ⟨outer, before, .awaited negated⟩ position text := by
  cases text with
  | nil => cases outer <;> rfl
  | cons c text =>
    have hc : c ≠ '(' := fun hc => hopen (congrArg some hc)
    have hsign : ¬ (c = '-' ∧ negated = false) := fun hsign => by
      rw [hminus (congrArg some hsign.1)] at hsign
      cases hsign.2
    rw [IsStuck, Expr.Pushdown.read?]
    simp only [hnumeral c rfl, Bool.false_eq_true, if_false, if_neg hc, if_neg hsign]

/-- The pattern of a number or a group. -/
def primary : Pattern := .choice (.rule .number) (.rule .group)

/-- **What follows a sign, or has none, is read as the machine reads it.** -/
theorem readsOperand_primary (position : Nat) (text : List Char) (negated : Bool)
    (h : ∀ text', text'.length < text.length →
      ReadsChain (.rule .chain) BeginsChain (position + 1) text')
    (hminus : text.head? = some '-' → negated = true) :
    ReadsOperand primary (.awaited negated) position text := by
  by_cases hnumeral : ∀ c ∈ text.head?, isNumeralChar c = false
  · have hnumber : Run (.rule .number) position text none ([] ++ [position]) :=
      .noRule (.noSequence (.noChar hnumeral))
    rw [List.nil_append] at hnumber
    by_cases hopen : text.head? = some '('
    · obtain ⟨text, rfl⟩ := List.head?_eq_some_iff.1 hopen
      cases readsOperand_group (h text (by simp)) negated with
      | matched read split reach run le takes =>
        exact .matched read split reach (.otherChoice hnumber run)
          (List.forall_mem_append.2 ⟨forall_mem_singleton_le (by omega), le⟩) takes
      | failed place run furthest stops =>
        exact .failed place (.otherChoice hnumber run)
          (furthest.append_left (forall_mem_singleton_le (le_of_stopsAt (stops [] [])))) stops
    · have hgroup : Run (.rule .group) position text none ([] ++ [position]) :=
        .noRule (.noSequence (run_noSymbol hopen position))
      exact .failed position (.otherChoice hnumber hgroup)
        ((isFurthest_singleton position).append_right (forall_mem_singleton_le (Nat.le_refl _)))
        fun outer before => (isStuck_awaited outer before hnumeral hopen hminus).stopsAt
  · obtain ⟨run, rest, rfl, hrun, hrest⟩ := exists_isRun hnumeral
    exact .matched run rfl rfl (.choice (run_number hrun hrest position))
      (fun p hp => absurd hp List.not_mem_nil) fun outer before =>
        ⟨_, _, takes_isRun hrun outer before negated position, ends_of_isNumeralChar rfl hrest⟩

/-- **A factor is read as the machine reads an operand.** -/
theorem readsOperand_factor (h : ∀ position text', text'.length < text.length →
      ReadsChain (.rule .chain) BeginsChain position text') (position : Nat) :
    ReadsOperand (.rule .factor) (.awaited false) position text := by
  refine .rule ?_
  by_cases hminus : text.head? = some '-'
  · obtain ⟨text, rfl⟩ := List.head?_eq_some_iff.1 hminus
    have hsign : Run (.optional (.rule .minus)) position ('-' :: text)
        (some (position + 1, text)) [] := .optional (.rule (.char rfl))
    have htakes : ∀ outer before, Takes ⟨outer, before, .awaited false⟩ position ['-']
        ⟨outer, before, .awaited true⟩ := fun outer before =>
      .cons (read?_minus outer before position) (.nil _ _)
    cases readsOperand_primary (position + 1) text true
        (fun text' hlt => h _ text' (Nat.lt_succ_of_lt hlt)) (fun _ => rfl) with
    | matched read split reach run le takes =>
      refine .matched ('-' :: read) (by rw [split]; rfl) (by simp; omega)
        (.sequence hsign run) le fun outer before => ?_
      obtain ⟨operand, last, ht, hends⟩ := takes outer before
      exact ⟨operand, last, (htakes outer before).append ht, hends⟩
    | failed place run furthest stops =>
      exact .failed place (.sequence hsign run) furthest fun outer before =>
        (htakes outer before).stopsAt (stops outer before)
  · have hsign : Run (.optional (.rule .minus)) position text (some (position, text))
        ([] ++ [position]) := .noOptional (.noRule (run_noSymbol hminus position))
    rw [List.nil_append] at hsign
    cases readsOperand_primary position text false (fun text' hlt => h _ text' hlt)
        (fun hc => absurd hc hminus) with
    | matched read split reach run le takes =>
      exact .matched read split reach (.sequence hsign run)
        (List.forall_mem_append.2 ⟨forall_mem_singleton_le (by omega), le⟩) takes
    | failed place run furthest stops =>
      have hle := le_of_stopsAt (stops [] [])
      exact .failed place (.sequence hsign run)
        (furthest.append_left (forall_mem_singleton_le hle)) stops

end Operand

/-! ## Chains -/

/-- The pattern of the rest of a chain. -/
def links : Pattern := .many (.sequence (.rule .operator) (.rule .factor))

theorem takes_operator {s : Expr.Pushdown} {last : Expr Literal} {text : List Char}
    {operator : Operator} (h : Ends s last (operator.symbol :: text)) (position : Nat) :
    Takes s position [operator.symbol]
      ⟨s.outer, (last, operator) :: s.before, .awaited false⟩ := by
  refine .cons ?_ (.nil _ _)
  rw [h.read _ rfl, afterOperand?_symbol]

section Chain

variable {pattern : Pattern} {starts : Expr.Pushdown → Prop} {position : Nat} {text : List Char}

/-- To attempt a rule is to attempt its pattern. -/
theorem ReadsChain.rule {rule : Rule} (h : ReadsChain rule.pattern starts position text) :
    ReadsChain (.rule rule) starts position text := by
  cases h with
  | matched read split reach run furthest takes noOperator =>
    exact .matched read split reach (.rule run) furthest takes noOperator
  | @stopped place outcome failed le run furthest stops blocked =>
    cases outcome with
    | some rest => exact .stopped place le (.rule run) furthest stops blocked
    | none =>
      exact .stopped place le (.noRule run) (furthest.append_right (forall_mem_singleton_le le))
        stops blocked

/-- **An operand and the rest of a chain after it are read as the machine reads them**, if the
operand is and the rest is. -/
theorem ReadsChain.append {read rest : List Char} {middle : Nat} {failed : List Nat}
    (reach : middle = position + read.length) (le : ∀ p ∈ failed, p ≤ middle)
    (run : ∀ outcome failed', Run links middle rest outcome failed' →
      Run pattern position (read ++ rest) outcome (failed ++ failed'))
    (takes : ∀ s, starts s → ∃ s' last,
      s'.outer = s.outer ∧ Takes s position read s' ∧ Ends s' last rest)
    (h : ReadsChain links (fun s => ∃ last, Ends s last rest) middle rest) :
    ReadsChain pattern starts position (read ++ rest) := by
  cases h with
  | @matched read' rest' middle' failed' split' reach' run' furthest' takes' noOperator' =>
    refine .matched (read ++ read') (by rw [split', List.append_assoc])
      (by rw [List.length_append]; omega) (run _ _ run')
      (furthest'.append_left fun p hp => Nat.le_trans (le p hp) (by omega)) (fun s hs => ?_)
      noOperator'
    obtain ⟨s₁, last₁, houter₁, ht₁, hends₁⟩ := takes s hs
    obtain ⟨s₂, last₂, houter₂, ht₂, hends₂⟩ := takes' s₁ ⟨last₁, hends₁⟩
    rw [reach] at ht₂
    exact ⟨s₂, last₂, houter₂.trans houter₁, ht₁.append ht₂, hends₂⟩
  | stopped place le' run' furthest' stops' blocked' =>
    refine .stopped place (by omega) (run _ _ run')
      (furthest'.append_left fun p hp => Nat.le_trans (le p hp) le') (fun s hs => ?_) blocked'
    obtain ⟨s₁, last₁, -, ht₁, hends₁⟩ := takes s hs
    have hstops := stops' s₁ ⟨last₁, hends₁⟩
    rw [reach] at hstops
    exact ht₁.stopsAt hstops

/-- **The rest of a chain is read as the machine reads it**, if its operands are. -/
theorem readsChain_links {bound : Nat} (h : ∀ position text, text.length ≤ bound →
      ReadsOperand (.rule .factor) (.awaited false) position text) (text : List Char) :
    text.length ≤ bound → ∀ position,
      ReadsChain links (fun s => ∃ last, Ends s last text) position text := by
  induction hn : text.length using Nat.strongRecOn generalizing text with
  | ind n ih =>
  subst hn
  intro hbound position
  by_cases hoperator : ∀ c ∈ text.head?, Operator.ofSymbol? c = none
  · have hrun : Run links position text (some (position, text)) [position] :=
      .noMany (.noSequence (run_noOperator hoperator position))
    refine .matched [] rfl rfl hrun (isFurthest_singleton position) (fun s hs => ?_) hoperator
    obtain ⟨last, hends⟩ := hs
    exact ⟨s, last, rfl, .nil _ _, hends⟩
  obtain ⟨operator, text, rfl⟩ := exists_operator hoperator
  cases h (position + 1) text (Nat.le_of_succ_le hbound) with
  | @failed place failed run furthest stops =>
    -- the matcher goes back to before the operator; the machine has read it and stops behind it
    have hle : position ≤ place := Nat.le_of_succ_le (le_of_stopsAt (stops [] []))
    have hrun : Run links position (operator.symbol :: text)
        (some (position, operator.symbol :: text)) ([] ++ failed) :=
      .noMany (.sequence (run_operator operator position) run)
    refine .stopped place hle hrun furthest ?_ ?_
    · rintro s ⟨last, hends⟩
      exact (takes_operator hends position).stopsAt (stops _ _)
    · rintro middle rest houtcome
      obtain ⟨rfl, rfl⟩ := Prod.mk.inj (Option.some.inj houtcome)
      exact ⟨hle, operator, rfl⟩
  | @matched read rest middle failed split reach run le takes =>
    have hlength : rest.length ≤ text.length := by simp [split]
    have hlinks := ih rest.length (Nat.lt_succ_of_le hlength) rest rfl
      (Nat.le_trans hlength (Nat.le_of_succ_le hbound)) middle
    rw [split] at run ⊢
    have hreach : middle = position + (operator.symbol :: read).length := by
      rw [reach, List.length_cons]
      omega
    refine .append hreach le (fun _ _ hrun => ?_) ?_ hlinks
    · exact .many (.sequence (run_operator operator position) run) hrun
    · rintro s ⟨last, hends⟩
      obtain ⟨operand, last', ht, hends'⟩ := takes s.outer ((last, operator) :: s.before)
      exact ⟨⟨s.outer, (last, operator) :: s.before, operand⟩, last', rfl,
        (takes_operator hends position).append ht, hends'⟩

/-- A chain is read as the machine reads it, if its operands are. -/
theorem readsChain_of_factor (h : ∀ position text', text'.length ≤ text.length →
      ReadsOperand (.rule .factor) (.awaited false) position text') (position : Nat) :
    ReadsChain (.rule .chain) BeginsChain position text := by
  refine .rule ?_
  cases h position text (Nat.le_refl _) with
  | failed place run furthest stops =>
    refine .stopped place (le_of_stopsAt (stops [] [])) (.noSequence run) furthest ?_
      (fun _ _ h => by cases h)
    rintro ⟨outer, before, operand⟩ ⟨rfl, rfl⟩
    exact stops outer []
  | @matched read rest middle failed split reach run le takes =>
    have hlinks := readsChain_links h rest (by simp [split]) middle
    rw [split] at run ⊢
    refine .append reach le (fun _ _ hrun => .sequence run hrun) ?_ hlinks
    rintro ⟨outer, before, operand⟩ ⟨rfl, rfl⟩
    obtain ⟨operand, last, ht, hends⟩ := takes outer []
    exact ⟨⟨outer, [], operand⟩, last, rfl, ht, hends⟩

/-- **A chain is read as the machine reads it.**  The induction is on the length of the text: the
chain in a group has fewer characters. -/
theorem readsChain (position : Nat) (text : List Char) :
    ReadsChain (.rule .chain) BeginsChain position text := by
  induction hn : text.length using Nat.strongRecOn generalizing position text with
  | ind n ih =>
  subst hn
  refine readsChain_of_factor (fun position text' hle => ?_) position
  exact readsOperand_factor (fun position text'' hlt =>
    ih text''.length (Nat.lt_of_lt_of_le hlt hle) position text'' rfl) position

end Chain

/-! ## Expressions -/

/-- What the matcher does with a text: it matches, and the machine reads the text, or it fails, and
its furthest attempt is where the machine stops. -/
theorem run_expression (text : List Char) :
    (∃ failed e, Run (.rule .expression) 0 text (some (text.length, [])) failed ∧
      start.finish 0 text = .ok e) ∨
    ∃ failed place, Run (.rule .expression) 0 text none failed ∧ IsFurthest failed place ∧
      start.StopsAt 0 text place := by
  cases readsChain 0 text with
  | @matched read rest middle failed split reach run furthest takes noOperator =>
    obtain ⟨⟨_, before, operand⟩, last, rfl, ht, hends⟩ := takes start ⟨rfl, rfl⟩
    cases rest with
    | nil =>
      obtain rfl : text = read := by rw [split, List.append_nil]
      rw [Nat.zero_add] at reach
      rw [reach] at run
      have hrun : Run (.rule .expression) 0 text (some (text.length, [])) (failed ++ []) :=
        .rule (.sequence run (.rule .finish))
      have hfinish := ht []
      rw [List.append_nil] at hfinish
      have hlast : (⟨[], before, operand⟩ : Expr.Pushdown).operand? = some last := hends.operand
      have hresult : (⟨[], before, operand⟩ : Expr.Pushdown).result? =
          some (close before last) := by
        simp only [result?, hlast, Option.map_some]
      refine .inl ⟨_, close before last, hrun, ?_⟩
      rw [hfinish, start]
      simp only [finish, hresult]
    | cons c rest =>
      have hend : Run (.rule .finish) middle (c :: rest) none ([] ++ [middle]) := .noRule .noFinish
      have hstuck : IsStuck ⟨start.outer, before, operand⟩ middle (c :: rest) :=
        isStuck_of_ends hends (noOperator c rfl) (fun _ => rfl) middle
      refine .inr ⟨_, middle, .noRule (.sequence run hend),
        (furthest.append_right (forall_mem_singleton_le (Nat.le_refl _))).append_right
          (forall_mem_singleton_le (Nat.zero_le _)), ?_⟩
      rw [reach] at hstuck ⊢
      rw [split]
      exact ht.stopsAt hstuck.stopsAt
  | @stopped place outcome failed le run furthest stops blocked =>
    refine .inr ?_
    have hstops := stops start ⟨rfl, rfl⟩
    cases outcome with
    | none =>
      exact ⟨_, place, .noRule (.noSequence run),
        furthest.append_right (forall_mem_singleton_le (Nat.zero_le _)), hstops⟩
    | some rest =>
      -- the chain has been matched in part, and the text is not at its end there
      obtain ⟨hle, operator, hoperator⟩ := blocked rest.1 rest.2 rfl
      obtain ⟨tail, hrest⟩ := List.head?_eq_some_iff.1 hoperator
      have hend : Run (.rule .finish) rest.1 rest.2 none ([] ++ [rest.1]) := by
        rw [hrest]
        exact .noRule .noFinish
      exact ⟨_, place, .noRule (.sequence run hend),
        (furthest.append_right (forall_mem_singleton_le hle)).append_right
          (forall_mem_singleton_le (Nat.zero_le _)), hstops⟩

/-- **The matcher accepts the expressions**, and nothing else. -/
theorem exists_run_iff_isSentence {text : List Char} :
    (∃ rest failed, Run (.rule .expression) 0 text (some rest) failed) ↔ IsSentence text := by
  rcases run_expression text with ⟨failed, e, hrun, hfinish⟩ | ⟨failed, place, hrun, -, hstops⟩
  · exact ⟨fun _ => ⟨e, Expr.ofText_eq_ok_iff.1 hfinish⟩, fun _ => ⟨_, failed, hrun⟩⟩
  · refine ⟨?_, fun hsentence => absurd hsentence (Expr.not_isSentence_iff.2 ⟨place, hstops⟩)⟩
    rintro ⟨rest, failed', hrun'⟩
    cases (hrun'.unique hrun).1

/-- The machine stops at one place at most. -/
theorem stopsAt_unique {text : List Char} {place place' : Nat} (h : start.StopsAt 0 text place)
    (h' : start.StopsAt 0 text place') : place = place' :=
  h.isGreatest.unique h'.isGreatest

/-- **The matcher fails where the machine stops.** -/
theorem failsAt_iff_stopsAt {text : List Char} {place : Nat} :
    FailsAt text place ↔ start.StopsAt 0 text place := by
  constructor
  · rintro ⟨failed, hrun, hfurthest⟩
    rcases run_expression text with ⟨_, _, hrun', -⟩ | ⟨_, place', hrun', hfurthest', hstops⟩
    · cases (hrun.unique hrun').1
    · obtain ⟨-, rfl⟩ := hrun.unique hrun'
      rwa [Nat.le_antisymm (hfurthest'.2 _ hfurthest.1) (hfurthest.2 _ hfurthest'.1)]
  · intro hstops
    rcases run_expression text with ⟨_, e, -, hfinish⟩ | ⟨failed, place', hrun, hfurthest, hstops'⟩
    · rw [hstops.finish_eq] at hfinish
      cases hfinish
    · rw [stopsAt_unique hstops hstops']
      exact ⟨failed, hrun, hfurthest⟩

/-- **The furthest attempt that fails is at the end of the longest beginning of the text that some
expression has.** -/
theorem failsAt_iff_isGreatest {text : List Char} {place : Nat} :
    FailsAt text place ↔ ¬ IsSentence text ∧ IsGreatest (viableLengths text) place := by
  rw [failsAt_iff_stopsAt]
  constructor
  · intro hstops
    exact ⟨Expr.not_isSentence_iff.2 ⟨place, hstops⟩, hstops.isGreatest⟩
  · rintro ⟨hsentence, hgreatest⟩
    obtain ⟨place', hstops⟩ := Expr.not_isSentence_iff.1 hsentence
    rwa [hgreatest.unique hstops.isGreatest]

end Matcher
end Calculator
