import Calculator.Expr.Grammar
import Calculator.Expr.Pushdown

/-!
# The machine reads the grammar

`Expr.ofText` reads a text with a machine that never looks ahead and never goes back; the relation
`Grammar.IsExpr` says which texts are written for which trees and knows of no machine.  Here the two
are shown to agree (`ofText_eq_ok_iff`).

* From the grammar to the machine: reading the text of an operand, of a rest or of an expression
  takes the machine from one state to another, whatever follows in the text.  This is an induction
  on the derivation.
* From the machine to the grammar: a state remembers all of the text that has been read.  `Reads`
  says which texts those are, and every step of the machine preserves it.
-/

set_option autoImplicit false

namespace Calculator
namespace Expr

open Grammar

namespace Pushdown

/-! ## One step -/

theorem isNumeralChar_symbol (operator : Operator) : isNumeralChar operator.symbol = false := by
  cases operator <;> decide

/-- Where an operand may end, a character that is not part of a run is read as what follows it. -/
theorem read?_eq_afterOperand? {s : Pushdown} {e : Expr Literal} (h : s.operand? = some e)
    {c : Char} (hc : isNumeralChar c = false) (position : Nat) :
    s.read? position c = s.afterOperand? e c := by
  obtain ⟨outer, before, operand⟩ := s
  cases operand with
  | awaited negated => simp [operand?] at h
  | run negated reversed start =>
    obtain rfl : number ⟨negated, reversed.reverse, start⟩ = e := by simpa [operand?] using h
    simp [read?, hc]
  | complete operand =>
    obtain rfl : operand = e := by simpa [operand?] using h
    simp [read?]

theorem afterOperand?_symbol (s : Pushdown) (e : Expr Literal) (operator : Operator) :
    s.afterOperand? e operator.symbol =
      some { s with before := (e, operator) :: s.before, operand := .awaited false } := by
  rw [afterOperand?, Operator.ofSymbol?_symbol]

theorem afterOperand?_close (frame : Frame) (outer : List Frame)
    (before : List (Expr Literal × Operator)) (operand : Operand) (e : Expr Literal) :
    (⟨frame :: outer, before, operand⟩ : Pushdown).afterOperand? e ')' =
      some ⟨outer, frame.before, .complete
        (if frame.negated then negate (group (close before e)) else group (close before e))⟩ := by
  rfl

/-! ## From the grammar to the machine -/

/-- Reading `text`, which begins at `position`, takes the machine from one state to another,
whatever follows. -/
def Takes (s : Pushdown) (position : Nat) (text : List Char) (s' : Pushdown) : Prop :=
  ∀ tail, s.finish position (text ++ tail) = s'.finish (position + text.length) tail

theorem Takes.nil (s : Pushdown) (position : Nat) : Takes s position [] s := fun _ => rfl

theorem Takes.cons {s next s' : Pushdown} {position : Nat} {c : Char} {text : List Char}
    (h : s.read? position c = some next) (ht : Takes next (position + 1) text s') :
    Takes s position (c :: text) s' := by
  intro tail
  rw [List.cons_append, finish, h, List.length_cons, Nat.add_comm text.length, ← Nat.add_assoc]
  exact ht tail

theorem Takes.append {s s' s'' : Pushdown} {position : Nat} {text text' : List Char}
    (h : Takes s position text s') (h' : Takes s' (position + text.length) text' s'') :
    Takes s position (text ++ text') s'' := by
  intro tail
  rw [List.append_assoc, h, h', List.length_append, Nat.add_assoc]

theorem takes_run {outer : List Frame} {before : List (Expr Literal × Operator)} {negated : Bool}
    {start : Nat} {run : List Char} (h : ∀ c ∈ run, isNumeralChar c = true)
    (reversed : List Char) (position : Nat) :
    Takes ⟨outer, before, .run negated reversed start⟩ position run
      ⟨outer, before, .run negated (run.reverse ++ reversed) start⟩ := by
  induction run generalizing reversed position with
  | nil => exact .nil _ _
  | cons c run ih =>
    rw [List.reverse_cons, List.append_assoc]
    exact .cons (by simp [read?, h c (.head _)])
      (ih (fun c hc => h c (.tail _ hc)) (c :: reversed) (position + 1))

/-- A run is read to its end, with or without the minus sign before it. -/
theorem takes_isRun {run : List Char} (h : IsRun run) (outer : List Frame)
    (before : List (Expr Literal × Operator)) (negated : Bool) (position : Nat) :
    Takes ⟨outer, before, .awaited negated⟩ position run
      ⟨outer, before, .run negated run.reverse position⟩ := by
  cases run with
  | nil => exact absurd rfl h.ne_nil
  | cons c run =>
    rw [List.reverse_cons]
    exact .cons (by simp [read?, h.all c (.head _)])
      (takes_run (fun c hc => h.all c (.tail _ hc)) [c] (position + 1))

theorem read?_minus (outer : List Frame) (before : List (Expr Literal × Operator))
    (position : Nat) :
    read? ⟨outer, before, .awaited false⟩ position '-' = some ⟨outer, before, .awaited true⟩ := rfl

theorem read?_open (outer : List Frame) (before : List (Expr Literal × Operator))
    (negated : Bool) (position : Nat) :
    read? ⟨outer, before, .awaited negated⟩ position '(' =
      some ⟨⟨before, negated⟩ :: outer, [], .awaited false⟩ := rfl

/-- Where the innermost chain may end, its parenthesis is read, and it is a group from then on. -/
theorem takes_close {frame : Frame} {outer : List Frame}
    {before : List (Expr Literal × Operator)} {operand : Operand} {last : Expr Literal}
    (h : (⟨frame :: outer, before, operand⟩ : Pushdown).operand? = some last) (position : Nat) :
    Takes ⟨frame :: outer, before, operand⟩ position [')']
      ⟨outer, frame.before, .complete (if frame.negated then negate (group (close before last))
        else group (close before last))⟩ := by
  refine .cons ?_ (.nil _ _)
  rw [read?_eq_afterOperand? h (by decide), afterOperand?_close]

/-- Parentheses around a text that is read to a place where its chain may end make a group of it. -/
theorem takes_group {position : Nat} {text : List Char} {e : Expr Literal} {outer : List Frame}
    {before : List (Expr Literal × Operator)} {negated : Bool}
    (h : ∃ before' operand last,
      (⟨⟨before, negated⟩ :: outer, before', operand⟩ : Pushdown).operand? = some last ∧
        close before' last = e ∧
        Takes ⟨⟨before, negated⟩ :: outer, [], .awaited false⟩ (position + 1) text
          ⟨⟨before, negated⟩ :: outer, before', operand⟩) :
    Takes ⟨outer, before, .awaited negated⟩ position ('(' :: (text ++ [')']))
      ⟨outer, before, .complete (if negated then negate (group e) else group e)⟩ := by
  obtain ⟨before', operand, last, ho, hc, ht⟩ := h
  have hclose := takes_close ho (position + 1 + text.length)
  rw [hc] at hclose
  exact .cons (read?_open outer before negated position) (ht.append hclose)

mutual

/-- The text of an operand is read to a place where the operand may end. -/
theorem takes_isOperand {position : Nat} {text : List Char} {e : Expr Literal} :
    IsOperand position text e → ∀ outer before, ∃ operand,
      (⟨outer, before, operand⟩ : Pushdown).operand? = some e ∧
      Takes ⟨outer, before, .awaited false⟩ position text ⟨outer, before, operand⟩
  | .run h, outer, before =>
    ⟨_, by simp [operand?], takes_isRun h outer before false position⟩
  | .negatedRun h, outer, before =>
    ⟨_, by simp [operand?],
      .cons (read?_minus outer before position) (takes_isRun h outer before true (position + 1))⟩
  | .group h, outer, before =>
    ⟨_, by simp [operand?], takes_group (takes_isExpr h (⟨before, false⟩ :: outer))⟩
  | .negatedGroup h, outer, before =>
    ⟨_, by simp [operand?], .cons (read?_minus outer before position)
      (takes_group (takes_isExpr h (⟨before, true⟩ :: outer)))⟩

/-- The text of the rest of a chain is read to a place where the chain may end. -/
theorem takes_isRest {position : Nat} {text : List Char} {rest : List (Operator × Expr Literal)} :
    IsRest position text rest → ∀ outer before operand e,
      (⟨outer, before, operand⟩ : Pushdown).operand? = some e →
      ∃ before' operand' last,
        (⟨outer, before', operand'⟩ : Pushdown).operand? = some last ∧
        unwind before' last [] = unwind before e rest ∧
        Takes ⟨outer, before, operand⟩ position text ⟨outer, before', operand'⟩
  | .nil, outer, before, operand, e, ho => ⟨before, operand, e, ho, rfl, .nil _ _⟩
  | @IsRest.cons _ _ _ operator _ _ h hrest, outer, before, operand, e, ho => by
    have hread := read?_eq_afterOperand? ho (isNumeralChar_symbol operator) position
    rw [afterOperand?_symbol] at hread
    obtain ⟨operand₁, ho₁, ht₁⟩ := takes_isOperand h outer ((e, operator) :: before)
    obtain ⟨before', operand', last, ho', hu, ht'⟩ :=
      takes_isRest hrest outer ((e, operator) :: before) operand₁ _ ho₁
    exact ⟨before', operand', last, ho', hu, .cons hread (ht₁.append ht')⟩

/-- The text of an expression is read to a place where it may end. -/
theorem takes_isExpr {position : Nat} {text : List Char} {e : Expr Literal} :
    IsExpr position text e → ∀ outer, ∃ before operand last,
      (⟨outer, before, operand⟩ : Pushdown).operand? = some last ∧ close before last = e ∧
      Takes ⟨outer, [], .awaited false⟩ position text ⟨outer, before, operand⟩
  | .intro h hrest, outer => by
    obtain ⟨operand₁, ho₁, ht₁⟩ := takes_isOperand h outer []
    obtain ⟨before, operand, last, ho, hu, ht⟩ := takes_isRest hrest outer [] operand₁ _ ho₁
    refine ⟨before, operand, last, ho, ?_, ht₁.append ht⟩
    rw [close, hu]
    rfl

end

/-! ## From the machine to the grammar -/

/-- The minus sign that has been read for an operand, if one has. -/
def sign (negated : Bool) : List Char := if negated then ['-'] else []

@[simp]
theorem sign_false : sign false = [] := rfl

@[simp]
theorem sign_true : sign true = ['-'] := rfl

/-- A text, which begins at `position`, is written for operands with an operator after each. -/
inductive IsBefore (position : Nat) : List Char → List (Expr Literal × Operator) → Prop
  | nil : IsBefore position [] []
  | snoc {text text' : List Char} {before : List (Expr Literal × Operator)} {operand : Expr Literal}
      {operator : Operator} (h : IsBefore position text before)
      (hoperand : IsOperand (position + text.length) text' operand) :
      IsBefore position (text ++ text' ++ [operator.symbol]) ((operand, operator) :: before)

/-- A text is written for chains that are interrupted by a parenthesis each. -/
inductive IsOpen : List Char → List Frame → Prop
  | nil : IsOpen [] []
  | snoc {text text' : List Char} {outer : List Frame} {before : List (Expr Literal × Operator)}
      {negated : Bool} (h : IsOpen text outer) (hbefore : IsBefore text.length text' before) :
      IsOpen (text ++ text' ++ sign negated ++ ['(']) (⟨before, negated⟩ :: outer)

/-- A text, which begins at `position`, is written for what has been read of an operand. -/
inductive IsBegun (position : Nat) : List Char → Operand → Prop
  | awaited (negated : Bool) : IsBegun position (sign negated) (.awaited negated)
  | run {negated : Bool} {reversed : List Char} (h : IsRun reversed.reverse) :
      IsBegun position (sign negated ++ reversed.reverse)
        (.run negated reversed (position + (sign negated).length))
  | complete {text : List Char} {e : Expr Literal} (h : IsOperand position text e) :
      IsBegun position text (.complete e)

/-- All of the text that has been read, in a state of the machine. -/
inductive Reads : List Char → Pushdown → Prop
  | intro {opened left text : List Char} {outer : List Frame}
      {before : List (Expr Literal × Operator)} {operand : Operand} (hopen : IsOpen opened outer)
      (hbefore : IsBefore opened.length left before)
      (hoperand : IsBegun (opened ++ left).length text operand) :
      Reads (opened ++ left ++ text) ⟨outer, before, operand⟩

theorem reads_start : Reads [] start := .intro .nil .nil (.awaited false)

/-- An operand that may end is one of the grammar. -/
theorem IsBegun.isOperand {position : Nat} {text : List Char} {outer : List Frame}
    {before : List (Expr Literal × Operator)} {operand : Operand} {e : Expr Literal}
    (h : IsBegun position text operand)
    (ho : (⟨outer, before, operand⟩ : Pushdown).operand? = some e) :
    IsOperand position text e := by
  cases h with
  | awaited negated => simp [operand?] at ho
  | @run negated reversed hrun =>
    obtain rfl : number ⟨negated, reversed.reverse, _⟩ = e := by simpa [operand?] using ho
    cases negated with
    | false => exact .run hrun
    | true => exact .negatedRun hrun
  | complete hcomplete =>
    obtain rfl := Option.some.inj ho
    exact hcomplete

/-- The operands to the left, the current one and the rest of the chain are an expression. -/
theorem IsBefore.isExpr {position : Nat} {text : List Char}
    {before : List (Expr Literal × Operator)} (h : IsBefore position text before)
    {text' text'' : List Char} {e : Expr Literal} {rest : List (Operator × Expr Literal)}
    (he : IsOperand (position + text.length) text' e)
    (hrest : IsRest (position + text.length + text'.length) text'' rest) :
    IsExpr position (text ++ text' ++ text'')
      (ofChain (unwind before e rest).1 (unwind before e rest).2) := by
  induction h generalizing text' text'' e rest with
  | nil => exact .intro he hrest
  | @snoc left right before operand operator h hoperand ih =>
    rw [List.length_append, List.length_append, List.length_singleton, ← Nat.add_assoc,
      ← Nat.add_assoc] at he hrest
    simpa [unwind] using ih hoperand (@IsRest.cons _ _ _ operator _ _ he hrest)

theorem IsBefore.isExpr_close {position : Nat} {text text' : List Char}
    {before : List (Expr Literal × Operator)} {e : Expr Literal} (h : IsBefore position text before)
    (he : IsOperand (position + text.length) text' e) :
    IsExpr position (text ++ text') (close before e) := by
  simpa [close] using h.isExpr he .nil

/-- What is read after an operand keeps the text. -/
theorem reads_afterOperand? {opened left text : List Char} {s next : Pushdown} {e : Expr Literal}
    {c : Char} (hopen : IsOpen opened s.outer) (hbefore : IsBefore opened.length left s.before)
    (he : IsOperand (opened ++ left).length text e) (h : s.afterOperand? e c = some next) :
    Reads (opened ++ left ++ text ++ [c]) next := by
  obtain ⟨outer, before, operand⟩ := s
  rw [List.length_append] at he
  rw [afterOperand?] at h
  split at h
  · rename_i operator hoperator
    obtain rfl := Option.some.inj h
    obtain rfl := Operator.ofSymbol?_eq_some_iff.1 hoperator
    simpa using Reads.intro hopen (hbefore.snoc he) (.awaited false)
  split at h
  · rename_i hc
    obtain rfl := hc
    cases hopen with
    | nil => cases h
    | @snoc text₀ left₀ outer before₀ negated hopen hbefore₀ =>
      obtain rfl := Option.some.inj h
      have hinner := hbefore.isExpr_close he
      cases negated with
      | false =>
        rw [sign_false, List.append_nil, List.length_append] at hinner
        simpa using Reads.intro hopen hbefore₀ (.complete (.group hinner))
      | true =>
        rw [sign_true, List.length_append, List.length_append] at hinner
        simpa using Reads.intro hopen hbefore₀ (.complete (.negatedGroup hinner))
  · cases h

theorem reads_awaited {opened left : List Char} {outer : List Frame}
    {before : List (Expr Literal × Operator)} {negated : Bool} {next : Pushdown} {c : Char}
    (hopen : IsOpen opened outer) (hbefore : IsBefore opened.length left before)
    (h : Pushdown.read? ⟨outer, before, .awaited negated⟩
        (opened ++ left ++ sign negated).length c = some next) :
    Reads (opened ++ left ++ sign negated ++ [c]) next := by
  by_cases hc : isNumeralChar c = true
  · simp only [Pushdown.read?, if_pos hc, Option.some.injEq] at h
    subst h
    have hrun : IsRun [c].reverse := ⟨by simp, by simpa using hc⟩
    simpa [Nat.add_assoc] using Reads.intro hopen hbefore (@IsBegun.run _ negated _ hrun)
  by_cases hp : c = '('
  · simp only [Pushdown.read?, if_neg hc, if_pos hp, Option.some.injEq] at h
    subst h
    rw [hp]
    simpa using Reads.intro (hopen.snoc hbefore) .nil (.awaited false)
  by_cases hm : c = '-' ∧ negated = false
  · simp only [Pushdown.read?, if_neg hc, if_neg hp, if_pos hm, Option.some.injEq] at h
    subst h
    rw [hm.1, hm.2]
    simpa using Reads.intro hopen hbefore (.awaited true)
  · simp only [Pushdown.read?, if_neg hc, if_neg hp, if_neg hm, reduceCtorEq] at h

theorem reads_run {opened left reversed : List Char} {outer : List Frame}
    {before : List (Expr Literal × Operator)} {negated : Bool} {next : Pushdown} {c : Char}
    (hopen : IsOpen opened outer) (hbefore : IsBefore opened.length left before)
    (hrun : IsRun reversed.reverse) {position : Nat}
    (h : Pushdown.read? ⟨outer, before, .run negated reversed
        ((opened ++ left).length + (sign negated).length)⟩ position c = some next) :
    Reads (opened ++ left ++ (sign negated ++ reversed.reverse) ++ [c]) next := by
  by_cases hc : isNumeralChar c = true
  · simp only [Pushdown.read?, if_pos hc, Option.some.injEq] at h
    subst h
    have hrun' : IsRun (c :: reversed).reverse := by
      refine ⟨by simp, fun d hd => ?_⟩
      rcases List.mem_cons.1 (List.mem_reverse.1 hd) with rfl | hd
      · exact hc
      · exact hrun.all d (List.mem_reverse.2 hd)
    simpa using Reads.intro hopen hbefore (@IsBegun.run _ negated _ hrun')
  · simp only [Pushdown.read?, if_neg hc] at h
    exact reads_afterOperand? hopen hbefore
      (@IsBegun.isOperand _ _ outer before _ _ (.run hrun) rfl) h

/-- **Every step of the machine adds its character to the text that has been read.** -/
theorem Reads.read? {text : List Char} {s next : Pushdown} {c : Char} (hs : Reads text s)
    (h : s.read? text.length c = some next) : Reads (text ++ [c]) next := by
  obtain ⟨hopen, hbefore, hoperand⟩ := hs
  cases hoperand with
  | awaited negated => exact reads_awaited hopen hbefore h
  | run hrun => exact reads_run hopen hbefore hrun h
  | complete he => exact reads_afterOperand? hopen hbefore he h

/-- A text at whose end the machine has an expression is written for that expression. -/
theorem Reads.isExpr {text : List Char} {s : Pushdown} {e : Expr Literal} (hs : Reads text s)
    (h : s.result? = some e) : IsExpr 0 text e := by
  obtain ⟨hopen, hbefore, hoperand⟩ := hs
  cases hopen with
  | nil =>
    obtain ⟨last, ho, rfl⟩ := Option.map_eq_some_iff.1 h
    exact hbefore.isExpr_close (by simpa using hoperand.isOperand ho)
  | snoc => cases h

theorem Reads.finish {text rest : List Char} {s : Pushdown} {e : Expr Literal} (hs : Reads text s)
    (h : s.finish text.length rest = .ok e) : IsExpr 0 (text ++ rest) e := by
  induction rest generalizing text s with
  | nil =>
    rw [Pushdown.finish] at h
    split at h
    · rename_i hr
      cases h
      simpa using hs.isExpr hr
    · cases h
  | cons c rest ih =>
    rw [Pushdown.finish] at h
    split at h
    · rename_i hr
      simpa using ih (hs.read? hr) (by simpa using h)
    · cases h

end Pushdown

open Pushdown

/-- The machine reads every text that is an expression, as the tree it is written for. -/
theorem ofText_of_isExpr {text : List Char} {e : Expr Literal} (h : IsExpr 0 text e) :
    ofText text = .ok e := by
  obtain ⟨before, operand, last, ho, hc, ht⟩ := takes_isExpr h []
  have hfinish := ht []
  rw [List.append_nil] at hfinish
  rw [ofText, start, hfinish, finish]
  simp [result?, ho, hc]

/-- **The machine and the grammar agree**: a text is read as a tree exactly if it is written for
it. -/
theorem ofText_eq_ok_iff {text : List Char} {e : Expr Literal} :
    ofText text = .ok e ↔ IsExpr 0 text e :=
  ⟨fun h => reads_start.finish h, ofText_of_isExpr⟩

end Expr
end Calculator
