import Calculator.Expr.Building
import Calculator.Proofs.Mapping
import Calculator.Proofs.Matcher

/-!
# The builder makes the tree that the machine reads

A text that matches has one list of pairs (`Matches.unique`).  So it is enough to know the pairs of
a text that is written for a tree, and what is built from them.  That goes by the grammar: an
operand gives the pair of a factor, the rest of a chain a list of pairs in turn of an operator and
of a factor, and an expression the pair of a chain (`exists_matches_expr`).  What follows the text
matters as far as the matcher would go on with it: an operand is not followed by a digit or a dot,
and a chain by no operator either.

The machine puts literals into its tree and their values later, the builder the values at once.
Both go from left to right, so the first literal that has no value is the same for them.  Together
with the place where the matcher fails, this is all that the machine says of a text
(`parses_iff`).
-/

set_option autoImplicit false

namespace Calculator
namespace Matcher

open Grammar

/-! ## A match is a run, and is the only one -/

section Unique

variable {pattern : Pattern} {position : Nat} {text : List Char} {rest : Rest} {pairs : List Pair}

theorem Matches.exists_run (h : Matches pattern position text rest pairs) :
    ∃ failed, Run pattern position text (some rest) failed := by
  induction h with
  | char h => exact ⟨_, .char h⟩
  | finish => exact ⟨_, .finish⟩
  | sequence _ _ ihfirst ihsecond =>
    obtain ⟨_, hfirst⟩ := ihfirst
    obtain ⟨_, hsecond⟩ := ihsecond
    exact ⟨_, .sequence hfirst hsecond⟩
  | choice _ ih =>
    obtain ⟨_, h⟩ := ih
    exact ⟨_, .choice h⟩
  | otherChoice hfirst _ ih =>
    obtain ⟨_, hsecond⟩ := ih
    exact ⟨_, .otherChoice hfirst hsecond⟩
  | optional _ ih =>
    obtain ⟨_, h⟩ := ih
    exact ⟨_, .optional h⟩
  | noOptional h => exact ⟨_, .noOptional h⟩
  | many _ _ ihinner ihmany =>
    obtain ⟨_, hinner⟩ := ihinner
    obtain ⟨_, hmany⟩ := ihmany
    exact ⟨_, .many hinner hmany⟩
  | noMany h => exact ⟨_, .noMany h⟩
  | rule _ _ ih =>
    obtain ⟨_, h⟩ := ih
    exact ⟨_, .rule h⟩

/-- What matches does not fail. -/
theorem Matches.not_run (h : Matches pattern position text rest pairs) {failed : List Nat} :
    ¬ Run pattern position text none failed := by
  intro hnone
  obtain ⟨_, hrun⟩ := h.exists_run
  cases (hrun.unique hnone).1

/-- **A pattern matches a text in one way only.** -/
theorem Matches.unique (h : Matches pattern position text rest pairs) :
    ∀ {rest' pairs'}, Matches pattern position text rest' pairs' →
      rest = rest' ∧ pairs = pairs' := by
  induction h with
  | char _ =>
    rintro _ _ ⟨⟩
    exact ⟨rfl, rfl⟩
  | finish =>
    rintro _ _ ⟨⟩
    exact ⟨rfl, rfl⟩
  | sequence _ _ ihfirst ihsecond =>
    rintro _ _ (_ | _ | ⟨hfirst', hsecond'⟩)
    obtain ⟨hrest, rfl⟩ := ihfirst hfirst'
    obtain ⟨rfl, rfl⟩ := Prod.mk.inj hrest
    obtain ⟨rfl, rfl⟩ := ihsecond hsecond'
    exact ⟨rfl, rfl⟩
  | choice hfirst ih =>
    intro _ _ h'
    cases h' with
    | choice hfirst' => exact ih hfirst'
    | otherChoice hnone _ => exact absurd hnone hfirst.not_run
  | otherChoice hnone _ ih =>
    intro _ _ h'
    cases h' with
    | choice hfirst' => exact absurd hnone hfirst'.not_run
    | otherChoice _ hsecond' => exact ih hsecond'
  | optional h ih =>
    intro _ _ h'
    cases h' with
    | optional h' => exact ih h'
    | noOptional hnone => exact absurd hnone h.not_run
  | noOptional hnone =>
    intro _ _ h'
    cases h' with
    | optional h' => exact absurd hnone h'.not_run
    | noOptional _ => exact ⟨rfl, rfl⟩
  | many hinner _ ihinner ihmany =>
    intro _ _ h'
    cases h' with
    | many hinner' hmany' =>
      obtain ⟨hrest, rfl⟩ := ihinner hinner'
      obtain ⟨rfl, rfl⟩ := Prod.mk.inj hrest
      obtain ⟨rfl, rfl⟩ := ihmany hmany'
      exact ⟨rfl, rfl⟩
    | noMany hnone => exact absurd hnone hinner.not_run
  | noMany hnone =>
    intro _ _ h'
    cases h' with
    | many hinner' _ => exact absurd hnone hinner'.not_run
    | noMany _ => exact ⟨rfl, rfl⟩
  | rule split _ ih =>
    intro _ _ h'
    cases h' with
    | rule split' h' =>
      obtain ⟨hrest, rfl⟩ := ih h'
      obtain ⟨rfl, rfl⟩ := Prod.mk.inj hrest
      obtain rfl := List.append_cancel_right (split.symm.trans split')
      exact ⟨rfl, rfl⟩

end Unique

/-! ## Single rules -/

section Rules

variable {position middle : Nat} {text read rest : List Char} {operator : Operator}

theorem matches_many_char {accepts : Char → Bool} (h : ∀ c ∈ read, accepts c = true)
    (hrest : ∀ c ∈ rest.head?, accepts c = false) (position : Nat) :
    Matches (.many (.char accepts)) position (read ++ rest) (position + read.length, rest) [] := by
  induction read generalizing position with
  | nil => exact .noMany (.noChar hrest)
  | cons c read ih =>
    have hmany := ih (fun c hc => h c (.tail _ hc)) (position + 1)
    rw [List.length_cons, Nat.add_comm read.length, ← Nat.add_assoc]
    exact .many (.char (h c (.head _))) hmany

theorem matches_number (h : IsRun read) (hrest : ∀ c ∈ rest.head?, isNumeralChar c = false)
    (position : Nat) :
    Matches (.rule .number) position (read ++ rest) (position + read.length, rest)
      [⟨.number, position, read, []⟩] := by
  obtain ⟨c, run, rfl⟩ := List.exists_cons_of_ne_nil h.ne_nil
  have hmany := matches_many_char (fun c hc => h.all c (.tail _ hc)) hrest (position + 1)
  rw [List.length_cons, Nat.add_comm run.length, ← Nat.add_assoc]
  exact .rule rfl (.sequence (.char (h.all c (.head _))) hmany)

theorem matches_operator (operator : Operator) (position : Nat) (text : List Char) :
    Matches (.rule .operator) position (operator.symbol :: text) (position + 1, text)
      [⟨.operator, position, [operator.symbol], []⟩] := by
  refine .rule rfl (.char ?_)
  rw [Operator.ofSymbol?_symbol, Option.isSome_some]

/-- Parentheses around a chain make a group. -/
theorem matches_group {chain : Pair}
    (h : Matches (.rule .chain) (position + 1) (read ++ ')' :: rest)
      (position + 1 + read.length, ')' :: rest) [chain]) :
    Matches (.rule .group) position ('(' :: (read ++ [')']) ++ rest)
      (position + ('(' :: (read ++ [')'])).length, rest)
      [⟨.group, position, '(' :: (read ++ [')']), [chain]⟩] := by
  have hlength : position + ('(' :: (read ++ [')'])).length = position + 1 + read.length + 1 := by
    simp only [List.length_cons, List.length_append, List.length_nil]
    omega
  have hopen : Matches (.char (· == '(')) position ('(' :: (read ++ ')' :: rest))
      (position + 1, read ++ ')' :: rest) [] := .char rfl
  have hclose : Matches (.char (· == ')')) (position + 1 + read.length) (')' :: rest)
      (position + 1 + read.length + 1, rest) [] := .char rfl
  rw [hlength]
  refine .rule rfl ?_
  rw [List.cons_append, List.append_assoc]
  exact .sequence hopen (.sequence h hclose)

/-- A group is taken for a group, since no number begins with a parenthesis. -/
theorem Matches.primary_group {group : Pair} {rest' : Rest}
    (h : Matches (.rule .group) position ('(' :: text) rest' [group]) :
    Matches primary position ('(' :: text) rest' [group] := by
  have hnumber : Run (.rule .number) position ('(' :: text) none ([] ++ [position]) :=
    .noRule (.noSequence (.noChar fun c hc => by cases hc; decide))
  exact .otherChoice hnumber h

/-- What has no sign before it is a factor. -/
theorem Matches.factor {operand : Pair} (hminus : (read ++ rest).head? ≠ some '-')
    (h : Matches primary position (read ++ rest) (middle, rest) [operand]) :
    Matches (.rule .factor) position (read ++ rest) (middle, rest)
      [⟨.factor, position, read, [operand]⟩] := by
  have hsign : Run (.rule .minus) position (read ++ rest) none ([] ++ [position]) :=
    .noRule (run_noSymbol hminus position)
  exact .rule rfl (.sequence (.noOptional hsign) h)

/-- And what has a sign before it is a factor with the sign. -/
theorem Matches.negatedFactor {operand : Pair}
    (h : Matches primary (position + 1) (read ++ rest) (middle, rest) [operand]) :
    Matches (.rule .factor) position ('-' :: read ++ rest) (middle, rest)
      [⟨.factor, position, '-' :: read, [⟨.minus, position, ['-'], []⟩, operand]⟩] := by
  have hsign : Matches (.rule .minus) position ('-' :: (read ++ rest)) (position + 1, read ++ rest)
      [⟨.minus, position, ['-'], []⟩] := .rule rfl (.char rfl)
  exact .rule rfl (.sequence (.optional hsign) h)

end Rules

/-! ## What is built -/

section Build

variable {rule : Rule} {position middle : Nat} {text run : List Char} {inner : List Pair}
  {pair : Pair}

/-- A pair has the number that its text has as a literal. -/
theorem buildNumber_eq : buildNumber ⟨rule, position, run, inner⟩ =
    Literal.value ⟨false, run, position⟩ := by
  rw [buildNumber, Literal.value]
  cases Decimal.ofNumeral? run with
  | none => rfl
  | some decimal => cases decimal.toBinary64? <;> rfl

/-- The sign of a literal may as well be put to its number. -/
theorem map_neg_value : (Literal.value ⟨false, run, position⟩).map (- ·) =
    Literal.value ⟨true, run, position⟩ := by
  rw [Literal.value, Literal.value]
  cases hnumeral : Decimal.ofNumeral? run with
  | none => rfl
  | some decimal =>
    cases hvalue : decimal.toBinary64? with
    | none =>
      simp only [hvalue]
      rfl
    | some value =>
      simp only [hvalue]
      rfl

theorem buildOperator_symbol (operator : Operator) :
    buildOperator ⟨rule, position, [operator.symbol], inner⟩ = .ok operator := by
  have htext : Operator.ofText (String.ofList [operator.symbol]) = .ok operator := by
    rw [Operator.ofText, String.toList_ofList]
    simp only [Operator.ofSymbol?_symbol]
  simp only [buildOperator, htext]

theorem buildFactor_number :
    buildFactor ⟨.factor, position, text, [⟨.number, middle, run, []⟩]⟩ =
      (Expr.number ⟨false, run, middle⟩).mapM Literal.value := by
  rw [Expr.mapM, ← buildNumber_eq]
  rfl

theorem buildFactor_negatedNumber :
    buildFactor ⟨.factor, position, text, [⟨.minus, position, ['-'], []⟩,
      ⟨.number, middle, run, []⟩]⟩ = (Expr.number ⟨true, run, middle⟩).mapM Literal.value := by
  have hfactor : buildFactor ⟨.factor, position, text, [⟨.minus, position, ['-'], []⟩,
      ⟨.number, middle, run, []⟩]⟩ =
        (buildNumber ⟨.number, middle, run, []⟩).map fun value => .number (-value) := rfl
  rw [hfactor, Expr.mapM, ← map_neg_value, ← buildNumber_eq]
  cases buildNumber ⟨.number, middle, run, []⟩ <;> rfl

theorem buildFactor_group {e : Expr Literal} (h : buildChain pair = e.mapM Literal.value) :
    buildFactor ⟨.factor, position, text, [⟨.group, middle, run, [pair]⟩]⟩ =
      (Expr.group e).mapM Literal.value := by
  rw [Expr.mapM, ← h]
  rfl

theorem buildFactor_negatedGroup {e : Expr Literal} (h : buildChain pair = e.mapM Literal.value) :
    buildFactor ⟨.factor, position, text, [⟨.minus, position, ['-'], []⟩,
      ⟨.group, middle, run, [pair]⟩]⟩ = (Expr.negate (.group e)).mapM Literal.value := by
  rw [Expr.mapM, Expr.mapM, ← h]
  rfl

end Build

/-! ## From the grammar to the pairs -/

/-- No number goes on with this text. -/
def EndsNumber (rest : List Char) : Prop := ∀ c ∈ rest.head?, isNumeralChar c = false

/-- No chain goes on with this text. -/
def EndsChain (rest : List Char) : Prop :=
  EndsNumber rest ∧ ∀ c ∈ rest.head?, Operator.ofSymbol? c = none

theorem endsChain_nil : EndsChain [] := ⟨fun c hc => (by cases hc), fun c hc => (by cases hc)⟩

theorem endsChain_close (rest : List Char) : EndsChain (')' :: rest) :=
  ⟨by rintro _ ⟨⟩; decide, by rintro _ ⟨⟩; decide⟩

/-- The rest of a chain is nothing or begins with an operator. -/
theorem endsNumber_isRest {position : Nat} {text rest : List Char}
    {links : List (Operator × Expr Literal)} (h : IsRest position text links)
    (hrest : EndsNumber rest) : EndsNumber (text ++ rest) := by
  cases h with
  | nil => exact hrest
  | cons _ _ =>
    rintro _ ⟨⟩
    exact Expr.Pushdown.isNumeralChar_symbol _

theorem head?_isRun_ne_minus {run : List Char} (h : IsRun run) (rest : List Char) :
    (run ++ rest).head? ≠ some '-' := by
  obtain ⟨c, run, rfl⟩ := List.exists_cons_of_ne_nil h.ne_nil
  rintro ⟨⟩
  exact absurd (h.all '-' (.head _)) (by decide)

mutual

/-- The text of an operand matches as a factor, and from that the operand is built. -/
theorem exists_matches_operand {position : Nat} {text : List Char} {e : Expr Literal} :
    IsOperand position text e → ∀ rest, EndsNumber rest → ∃ factor,
      Matches (.rule .factor) position (text ++ rest) (position + text.length, rest) [factor] ∧
        buildFactor factor = e.mapM Literal.value
  | .run h, rest, hrest =>
    ⟨_, .factor (head?_isRun_ne_minus h rest) (.choice (matches_number h hrest position)),
      buildFactor_number⟩
  | .negatedRun h, rest, hrest => by
    have hnumber := matches_number h hrest (position + 1)
    rw [List.length_cons, Nat.add_comm _ 1, ← Nat.add_assoc]
    exact ⟨_, .negatedFactor (.choice hnumber), buildFactor_negatedNumber⟩
  | .group h, rest, _ => by
    obtain ⟨chain, hchain, hbuild⟩ := exists_matches_expr h (')' :: rest) (endsChain_close rest)
    exact ⟨_, .factor (by simp) (matches_group hchain).primary_group, buildFactor_group hbuild⟩
  | .negatedGroup h, rest, _ => by
    obtain ⟨chain, hchain, hbuild⟩ := exists_matches_expr h (')' :: rest) (endsChain_close rest)
    have hgroup := (matches_group hchain).primary_group
    rw [List.length_cons, Nat.add_comm _ 1, ← Nat.add_assoc]
    exact ⟨_, .negatedFactor hgroup, buildFactor_negatedGroup hbuild⟩

/-- The text of the rest of a chain matches as operators and factors in turn. -/
theorem exists_matches_rest {position : Nat} {text : List Char}
    {links : List (Operator × Expr Literal)} :
    IsRest position text links → ∀ rest, EndsChain rest → ∃ pairs,
      Matches Matcher.links position (text ++ rest) (position + text.length, rest) pairs ∧
        ∀ done, buildLinks done pairs = Expr.mapRestM Literal.value done links
  | .nil, rest, hrest =>
    ⟨[], .noMany (.noSequence (run_noOperator hrest.2 position)), fun _ => rfl⟩
  | @IsRest.cons _ text text' operator operand links h hrest', rest, hrest => by
    obtain ⟨factor, hfactor, hbuild⟩ :=
      exists_matches_operand h (text' ++ rest) (endsNumber_isRest hrest' hrest.1)
    obtain ⟨pairs, hpairs, hbuilds⟩ := exists_matches_rest hrest' rest hrest
    have hoperator := matches_operator operator position (text ++ (text' ++ rest))
    have hlength : position + (operator.symbol :: (text ++ text')).length =
        position + 1 + text.length + text'.length := by
      simp only [List.length_cons, List.length_append]
      omega
    rw [hlength, List.cons_append, List.append_assoc]
    refine ⟨_, .many (.sequence hoperator hfactor) hpairs, fun done => ?_⟩
    rw [List.singleton_append, List.cons_append, List.singleton_append, buildLinks,
      buildOperator_symbol, hbuild, Expr.mapRestM]
    simp only [hbuilds]
    rfl

/-- The text of an expression matches as a chain, and from that the expression is built. -/
theorem exists_matches_expr {position : Nat} {text : List Char} {e : Expr Literal} :
    IsExpr position text e → ∀ rest, EndsChain rest → ∃ chain,
      Matches (.rule .chain) position (text ++ rest) (position + text.length, rest) [chain] ∧
        buildChain chain = e.mapM Literal.value
  | @IsExpr.intro _ text text' first links h hrest', rest, hrest => by
    obtain ⟨factor, hfactor, hbuild⟩ :=
      exists_matches_operand h (text' ++ rest) (endsNumber_isRest hrest' hrest.1)
    obtain ⟨pairs, hpairs, hbuilds⟩ := exists_matches_rest hrest' rest hrest
    rw [List.length_append, ← Nat.add_assoc, List.append_assoc]
    refine ⟨_, .rule (List.append_assoc text text' rest).symm (.sequence hfactor hpairs), ?_⟩
    rw [List.singleton_append, buildChain, hbuild, hbuilds, Expr.mapM_ofChain]

end

/-! ## From a text to a tree -/

/-- A text that is an expression matches, and the tree that is built is the one that the machine
reads. -/
theorem exists_matches_expression {text : List Char} {e : Expr Literal} (h : IsExpr 0 text e) :
    ∃ pair, Matches (.rule .expression) 0 text (text.length, []) [pair] ∧
      build [pair] = e.mapM Literal.value := by
  obtain ⟨chain, hchain, hbuild⟩ := exists_matches_expr h [] endsChain_nil
  rw [List.append_nil, Nat.zero_add] at hchain
  have hfinish : Matches (.rule .finish) text.length [] (text.length, [])
      [⟨.finish, text.length, [], []⟩] := .rule rfl .finish
  exact ⟨_, .rule (List.append_nil text).symm (.sequence hchain hfinish), hbuild⟩

theorem parse_eq_of_isExpr {text : List Char} {e : Expr Literal} (h : IsExpr 0 text e) :
    Expr.parse text = e.mapM Literal.value := by
  rw [Expr.parse, Expr.ofText_of_isExpr h]
  rfl

/-- **What is built from a match is the tree that the machine reads**, or the same error. -/
theorem build_eq_parse {text : List Char} {rest : Rest} {pairs : List Pair}
    (h : Matches (.rule .expression) 0 text rest pairs) : build pairs = Expr.parse text := by
  obtain ⟨failed, hrun⟩ := h.exists_run
  obtain ⟨e, he⟩ := exists_run_iff_isSentence.1 ⟨rest, failed, hrun⟩
  obtain ⟨pair, hpair, hbuild⟩ := exists_matches_expression he
  rw [(h.unique hpair).2, hbuild, parse_eq_of_isExpr he]

/-- **Matching and building is reading.**  Every text parses in one way, and that is what the
machine makes of it: the same tree, or the same error. -/
theorem parses_iff {text : List Char} {result : Except EvalError (Expr Binary64)} :
    Parses text result ↔ result = Expr.parse text := by
  constructor
  · rintro (h | h)
    · exact build_eq_parse h
    · rw [Expr.parse, Expr.ofText, (failsAt_iff_stopsAt.1 h).finish_eq]
      rfl
  · rintro rfl
    by_cases hsentence : IsSentence text
    · obtain ⟨e, he⟩ := hsentence
      obtain ⟨pair, hpair, hbuild⟩ := exists_matches_expression he
      rw [parse_eq_of_isExpr he, ← hbuild]
      exact .built hpair
    · obtain ⟨place, hstops⟩ := Expr.not_isSentence_iff.1 hsentence
      have hfails : FailsAt text place := failsAt_iff_stopsAt.2 hstops
      rw [Expr.parse, Expr.ofText, hstops.finish_eq]
      exact .rejected hfails

end Matcher
end Calculator
