import Calculator.Proofs.Finite
import Calculator.Proofs.Message
import Calculator.Proofs.Reporting
import Calculator.Session

/-!
# Sessions of the console

The console goes through the lines of its input one by one.  Here it is shown that what it prints
and reports is a session of the equations in them (`IsSession`).

* `readLimit?_eq_some_iff` — the limit is the number that it is set to.
* `hasEquations_iff` — the console finds the equations that stand in the lines.
* `isAnswer_answer` — it answers each of them as it has to, and everything that it says stays on one
  line.
* `exitCode_run` — it fails exactly if there is a line that is no text.
* `upTo_debug_log` and `upTo_debug_fullLog` — all that is reported is at level `debug` or above.
* `output_append` — bytes are read as texts line by line, so a line that is no text makes no
  difference to those before it, and what comes after a text is answered as if it were alone.
* `run_answers_lines` — all of it for a whole run.
-/

set_option autoImplicit false

namespace Calculator
namespace Console

/-! ## The limit -/

section Limit

variable {text : String} {most : Nat} {setting : Option String} {limit : Option Nat}

/-- A plus sign before digits is left out. -/
theorem readLimit?_of_digits {digits : List Char} (h : Decimal.IsDigits digits)
    (htext : text.toList = digits ∨ text.toList = '+' :: digits)
    (hlt : Nat.ofDigitChars 10 digits 0 < UInt64.size) :
    readLimit? text = some (Nat.ofDigitChars 10 digits 0) := by
  have hread : readLimit? text = if digits ≠ [] ∧ digits.all Char.isDigit ∧
      Nat.ofDigitChars 10 digits 0 < UInt64.size then some (Nat.ofDigitChars 10 digits 0)
      else none := by
    rw [readLimit?]
    rcases htext with htext | htext
    · rw [htext]
      split
      · exact absurd (h.all '+' (.head _)) (by decide)
      · rfl
    · rw [htext]
      rfl
  rw [hread, if_pos ⟨h.ne_nil, List.all_eq_true.2 h.all, hlt⟩]

theorem readLimit?_of_isCount (h : IsCount text most) : readLimit? text = some most := by
  obtain ⟨hlt, sign, zeros, hsign, hzeros, htext⟩ := h
  have hreplicate := List.eq_replicate_of_mem hzeros
  have hvalue : Nat.ofDigitChars 10 (zeros ++ toString most).toList 0 = most := by
    rw [String.toList_append, hreplicate, toList_nat, Nat.ofDigitChars_append,
      Nat.ofDigitChars_replicate_zero, Nat.mul_zero, Nat.ofDigitChars_ten_toDigits]
  have hdigits : Decimal.IsDigits (zeros ++ toString most).toList := by
    rw [String.toList_append, toList_nat]
    refine ⟨by simp [Nat.toDigits_ne_nil], fun c hc => ?_⟩
    rcases List.mem_append.1 hc with hc | hc
    · rw [hzeros c hc]
      decide
    · exact Decimal.isDigit_of_mem_toDigits hc
  rw [← hvalue] at hlt
  rw [readLimit?_of_digits hdigits ?_ hlt, hvalue]
  rcases hsign with rfl | rfl
  · left
    rw [htext, String.empty_append]
  · right
    rw [htext, String.append_assoc, String.toList_append]
    rfl

/-- **A setting is read as the number that it is written as**, if it is one at all. -/
theorem readLimit?_eq_some_iff : readLimit? text = some most ↔ IsCount text most := by
  refine ⟨fun h => ?_, readLimit?_of_isCount⟩
  have hsplit : ∃ sign digits, (sign = "" ∨ sign = "+") ∧ text = sign ++ String.ofList digits ∧
      Decimal.IsDigits digits ∧ Nat.ofDigitChars 10 digits 0 = most ∧ most < UInt64.size := by
    rw [readLimit?] at h
    split at h
    · rename_i digits htext
      obtain ⟨⟨hne, hall, hlt⟩, hvalue⟩ := Option.ite_none_right_eq_some.1 h
      rw [Option.some.injEq] at hvalue
      refine ⟨"+", digits, .inr rfl, ?_, ⟨hne, List.all_eq_true.1 hall⟩, hvalue, hvalue ▸ hlt⟩
      rw [← String.toList_inj, htext]
      simp
    · obtain ⟨⟨hne, hall, hlt⟩, hvalue⟩ := Option.ite_none_right_eq_some.1 h
      rw [Option.some.injEq] at hvalue
      refine ⟨"", _, .inl rfl, ?_, ⟨hne, List.all_eq_true.1 hall⟩, hvalue, hvalue ▸ hlt⟩
      rw [String.empty_append, String.ofList_toList]
  obtain ⟨sign, digits, hsign, rfl, hdigits, hvalue, hlt⟩ := hsplit
  obtain ⟨zeros, hzeros⟩ := hdigits.exists_zeros
  refine ⟨hlt, sign, String.ofList (List.replicate zeros '0'), hsign, fun c hc => ?_, ?_⟩
  · rw [String.toList_ofList] at hc
    exact List.eq_of_mem_replicate hc
  · rw [← String.toList_inj, String.append_assoc, String.toList_append, String.toList_append,
      String.toList_append, String.toList_ofList, String.toList_ofList, toList_nat, ← hvalue,
      ← hzeros]

/-- **The console finds the limit that is in force.** -/
theorem isSetting_iff : IsSetting setting limit ↔ setting.bind readLimit? = limit := by
  constructor
  · rintro (_ | h | h)
    · rfl
    · exact readLimit?_eq_some_iff.2 h
    · exact Option.eq_none_iff_forall_not_mem.2 fun most hmost =>
        h most (readLimit?_eq_some_iff.1 hmost)
  · rintro rfl
    cases setting with
    | none => exact .unset
    | some text =>
      rw [Option.bind_some]
      cases hread : readLimit? text with
      | none =>
        refine .ignored fun most h => ?_
        rw [readLimit?_eq_some_iff.2 h] at hread
        cases hread
      | some most => exact .count (readLimit?_eq_some_iff.1 hread)

/-- The limit can be set to any number of 64 bits. -/
theorem isSetting_toString (h : ∀ most ∈ limit, most < UInt64.size) :
    IsSetting (limit.map toString) limit := by
  cases limit with
  | none => exact .unset
  | some most =>
    refine .count ⟨h most rfl, "", "", .inl rfl, fun c hc => (by cases hc), ?_⟩
    rw [String.empty_append, String.empty_append]

end Limit

/-! ## Lines -/

theorem splitLines_eq_splitOn (input : List UInt8) : splitLines input = input.splitOn 10 := by
  rw [splitLines]
  induction input with
  | nil => rfl
  | cons byte input ih =>
    obtain ⟨line, lines, hlines⟩ := List.exists_cons_of_ne_nil (List.splitOn_ne_nil 10 input)
    rw [List.foldr_cons, ih, List.splitOn_cons_eq_if_modifyHead, hlines]
    by_cases h : byte = 10
    · rw [if_pos (beq_iff_eq.2 h)]
      exact if_pos h
    · rw [if_neg (mt beq_iff_eq.1 h)]
      exact if_neg h

/-! ## Blanks at the ends -/

theorem dropWhile_isBlank_eq_self {chars : List Char} (h : ∀ c ∈ chars.head?, isBlank c = false) :
    chars.dropWhile isBlank = chars := by
  cases chars with
  | nil => rfl
  | cons c chars => rw [List.dropWhile_cons_of_neg (by simp [h c rfl])]

theorem exists_dropWhile_isBlank (chars : List Char) :
    ∃ blanks, chars = blanks ++ chars.dropWhile isBlank ∧ (∀ c ∈ blanks, isBlank c = true) ∧
      ∀ c ∈ (chars.dropWhile isBlank).head?, isBlank c = false := by
  refine ⟨chars.takeWhile isBlank, List.takeWhile_append_dropWhile.symm,
    List.all_eq_true.1 List.all_takeWhile, fun c hc => ?_⟩
  have := List.head?_dropWhile_not isBlank chars
  simpa [Option.mem_def.1 hc] using this

/-- **The console leaves out the blanks at the ends**, and nothing else. -/
theorem isTrimmed_trimBlanks (text : String) :
    IsTrimmed text (String.ofList (trimBlanks text.toList)) := by
  obtain ⟨left, hleft, hblankLeft, hhead⟩ := exists_dropWhile_isBlank text.toList
  obtain ⟨right, hright, hblankRight, hlast⟩ :=
    exists_dropWhile_isBlank (text.toList.dropWhile isBlank).reverse
  have hmiddle : text.toList.dropWhile isBlank = trimBlanks text.toList ++ right.reverse := by
    rw [← List.reverse_inj, List.reverse_append, List.reverse_reverse, trimBlanks,
      List.reverse_reverse]
    exact hright
  refine ⟨⟨left, right.reverse, ?_, ?_⟩, ?_, ?_⟩
  · rw [String.toList_ofList, List.append_assoc, ← hmiddle]
    exact hleft
  · intro c hc
    rw [List.mem_append, List.mem_reverse] at hc
    exact hc.elim (hblankLeft c) (hblankRight c)
  · rw [String.toList_ofList]
    intro c hc
    refine hhead c ?_
    rw [hmiddle, List.head?_append, Option.mem_def.1 hc]
    rfl
  · rw [String.toList_ofList, trimBlanks, List.getLast?_reverse]
    exact hlast

theorem IsTrimmed.eq_trimBlanks {text trimmed : String} (h : IsTrimmed text trimmed) :
    String.ofList (trimBlanks text.toList) = trimmed := by
  obtain ⟨⟨left, right, htext, hblank⟩, hhead, hlast⟩ := h
  rw [← String.toList_inj, String.toList_ofList, trimBlanks, htext, List.append_assoc,
    List.dropWhile_append_of_pos fun c hc => hblank c (List.mem_append_left _ hc)]
  have hright : ∀ c ∈ right.reverse, isBlank c = true := fun c hc =>
    hblank c (List.mem_append_right _ (List.mem_reverse.1 hc))
  cases hchars : trimmed.toList with
  | nil =>
    have hright' : ∀ c ∈ right, isBlank c = true := fun c hc => hright c (List.mem_reverse.2 hc)
    rw [List.nil_append, ← List.append_nil right, List.dropWhile_append_of_pos hright']
    rfl
  | cons c chars =>
    rw [hchars] at hhead hlast
    have hc : ¬ isBlank c = true := by simp [hhead c rfl]
    rw [List.cons_append, List.dropWhile_cons_of_neg hc, ← List.cons_append, List.reverse_append,
      List.dropWhile_append_of_pos hright, dropWhile_isBlank_eq_self, List.reverse_reverse]
    rwa [List.head?_reverse]

/-! ## Equations -/

namespace Line

/-- Bytes that are no text are unreadable. -/
theorem ofBytes_eq_unreadable {bytes : List UInt8} (h : ∀ text, utf8 text ≠ bytes) :
    ofBytes bytes = unreadable := by
  have hnone : String.fromUTF8? ⟨bytes.toArray⟩ = none :=
    Option.eq_none_iff_forall_not_mem.2 fun text htext => h text (fromUTF8?_eq_some_iff.1 htext)
  rw [ofBytes, hnone]

/-- What stands in the line of a text is the text without the blanks around it. -/
theorem ofBytes_utf8 {text trimmed : String} (h : IsTrimmed text trimmed) :
    ofBytes (utf8 text) = if trimmed = "" then blank else equation trimmed := by
  rw [ofBytes, fromUTF8?_eq_some_iff.2 rfl]
  simp only [h.eq_trimBlanks]
  refine ite_congr (propext ?_) (fun _ => rfl) fun _ => rfl
  rw [← h.eq_trimBlanks, String.ofList_eq_empty_iff]

end Line

/-- The equations that the console finds in some lines. -/
def equationsIn : List (List UInt8) → List String
  | [] => []
  | line :: lines =>
    match Line.ofBytes line with
    | .unreadable => []
    | .blank => equationsIn lines
    | .equation text => text :: equationsIn lines

section Equations

variable {line : List UInt8} {lines : List (List UInt8)}

theorem equationsIn_unreadable (h : ∀ text, utf8 text ≠ line) :
    equationsIn (line :: lines) = [] := by
  rw [equationsIn, Line.ofBytes_eq_unreadable h]

theorem equationsIn_blank {text : String} (h : IsTrimmed text "") :
    equationsIn (utf8 text :: lines) = equationsIn lines := by
  rw [equationsIn, Line.ofBytes_utf8 h, if_pos rfl]

theorem equationsIn_equation {text equation : String} (h : IsTrimmed text equation)
    (hne : equation ≠ "") :
    equationsIn (utf8 text :: lines) = equation :: equationsIn lines := by
  rw [equationsIn, Line.ofBytes_utf8 h, if_neg hne]

theorem hasEquations_equationsIn (lines : List (List UInt8)) :
    HasEquations lines (equationsIn lines) := by
  induction lines with
  | nil => exact .nil
  | cons line lines ih =>
    by_cases h : ∃ text, utf8 text = line
    · obtain ⟨text, rfl⟩ := h
      have htrimmed := isTrimmed_trimBlanks text
      by_cases hne : String.ofList (trimBlanks text.toList) = ""
      · rw [hne] at htrimmed
        rw [equationsIn_blank htrimmed]
        exact .blank htrimmed ih
      · rw [equationsIn_equation htrimmed hne]
        exact .equation htrimmed hne ih
    · have hline : ∀ text, utf8 text ≠ line := fun text htext => h ⟨text, htext⟩
      rw [equationsIn_unreadable hline]
      exact .unreadable hline

/-- **The console finds the equations that stand in the lines**, and no others. -/
theorem hasEquations_iff {equations : List String} :
    HasEquations lines equations ↔ equationsIn lines = equations := by
  constructor
  · intro h
    induction h with
    | nil => rfl
    | unreadable h => exact equationsIn_unreadable h
    | blank h _ ih => rw [equationsIn_blank h, ih]
    | equation h hne _ ih => rw [equationsIn_equation h hne, ih]
  · rintro rfl
    exact hasEquations_equationsIn lines

end Equations

/-! ## Single lines -/

theorem isLine_logLine {entry : Entry} (h : IsLine entry.message) : IsLine (logLine entry) := by
  obtain ⟨level, message⟩ := entry
  have hlevel : IsLine (String.ofList (level.name.toList.rightpad 5 ' ')) := by
    rw [isLine_ofList]
    cases level <;> decide
  show IsLine (_ ++ String.ofList (level.name.toList.rightpad 5 ' ') ++ _ ++ message)
  refine .append (.append (.append ?_ hlevel) ?_) h <;> simp [IsLine, toString]

theorem isLine_text {value : Binary64} (h : value.IsFinite) : IsLine value.text := by
  intro hmem
  rcases Binary64.eq_minus_or_isNumeralChar_of_mem_text h _ hmem with h | h <;>
    exact absurd h (by decide)

theorem isLine_refusal : IsLine refusal := by simp [IsLine, refusal]

/-! ## Answers -/

section Answers

variable {limit : Option Nat} {equation : String} {value : Binary64}

/-- The answer to an equation with a value. -/
def valueText (equation : String) (value : Binary64) : String :=
  s!"The result of {equation} is {value.text}"

theorem toList_valueText (equation : String) (value : Binary64) :
    (valueText equation value).toList =
      "The result of ".toList ++ equation.toList ++ " is ".toList ++ value.text.toList := by
  show ("The result of " ++ equation ++ " is " ++ value.text).toList = _
  rw [String.toList_append, String.toList_append, String.toList_append]

theorem valueText_ne_refusal : valueText equation value ≠ refusal := by
  intro h
  have hhead := congrArg (fun text => text.toList.head?) h
  simp [toList_valueText, refusal] at hhead

theorem valueText_eq_iff {value' : Binary64} (hfinite : value.IsFinite) :
    valueText equation value = valueText equation value' ↔ value = value' := by
  refine ⟨fun h => Binary64.eq_of_text_eq hfinite ?_, fun h => h ▸ rfl⟩
  have htext := congrArg String.toList h
  rw [toList_valueText, toList_valueText, List.append_cancel_left_eq] at htext
  exact String.toList_inj.1 htext

theorem isLine_valueText (h : IsLine equation) (hfinite : value.IsFinite) :
    IsLine (valueText equation value) := by
  show IsLine ("The result of " ++ equation ++ " is " ++ value.text)
  refine .append (.append (.append ?_ h) ?_) (isLine_text hfinite) <;> simp [IsLine]

theorem mem_some_iff_of_isWithin (hwithin : IsWithin limit equation) (text : String) :
    text ∈ some equation ↔ text = equation ∧ IsWithin limit equation := by
  rw [Option.mem_some]
  exact ⟨fun h => ⟨h.symm, hwithin⟩, fun h => h.1.symm⟩

theorem isAnswer_value (h : IsLine equation) (hwithin : IsWithin limit equation)
    (hv : evaluate equation = .ok value) :
    IsAnswer limit equation ⟨valueText equation value, some equation, none⟩ where
  value := by
    have hfinite := isFinite_of_evaluate hv
    intro value'
    show valueText equation value = valueText equation value' ↔ _
    rw [valueText_eq_iff hfinite, hv, Except.ok.injEq]
    exact ⟨fun h => ⟨hwithin, h⟩, fun h => h.2⟩
  refused := ⟨fun h => absurd h valueText_ne_refusal, fun h => absurd ⟨hwithin, value, hv⟩ h⟩
  evaluated := mem_some_iff_of_isWithin hwithin
  isLine := isLine_valueText h (isFinite_of_evaluate hv)
  reported := ⟨fun h => (by cases h), fun h => absurd h valueText_ne_refusal⟩
  isLine_report := by rintro entry ⟨⟩
  level := by rintro entry ⟨⟩
  level_eq_info_iff := by rintro entry ⟨⟩

theorem isAnswer_refusal {evaluated : Option String} {entry : Entry}
    (h : ¬ (IsWithin limit equation ∧ ∃ value, evaluate equation = .ok value))
    (hevaluated : ∀ text, text ∈ evaluated ↔ text = equation ∧ IsWithin limit equation)
    (hline : IsLine entry.message) (hlevel : entry.level = .info ∨ entry.level = .debug)
    (hinfo : entry.level = .info ↔ IsWithin limit equation ∧
      (evaluate equation = .error .divisionByZero ∨ evaluate equation = .error .overflow)) :
    IsAnswer limit equation ⟨refusal, evaluated, some entry⟩ where
  value value' := by
    refine ⟨fun htext => absurd htext.symm valueText_ne_refusal, ?_⟩
    rintro ⟨hwithin, hv⟩
    exact absurd ⟨hwithin, value', hv⟩ h
  refused := ⟨fun _ => h, fun _ => rfl⟩
  evaluated := hevaluated
  isLine := isLine_refusal
  reported := ⟨fun _ => rfl, fun _ => rfl⟩
  isLine_report := by
    rintro _ ⟨⟩
    exact isLine_logLine hline
  level := by
    rintro _ ⟨⟩
    exact hlevel
  level_eq_info_iff := by
    rintro _ ⟨⟩
    exact hinfo

theorem isLine_failureReport {failure : EvalError} (h : IsLine equation)
    (hfailure : IsLine failure.message) : IsLine (failureReport equation failure).message := by
  rw [failureReport]
  split <;> refine .append (.append (.append ?_ h) ?_) hfailure <;> simp [IsLine, toString]

theorem isAnswer_solve (h : IsLine equation) (hwithin : IsWithin limit equation) :
    IsAnswer limit equation (solve equation) := by
  rw [solve]
  cases he : evaluate equation with
  | ok value => exact isAnswer_value h hwithin he
  | error failure =>
    have hline := isLine_failureReport h (isLine_message_of_evaluate he)
    refine isAnswer_refusal ?_ (mem_some_iff_of_isWithin hwithin) hline ?_ ?_
    · rintro ⟨-, value, hv⟩
      rw [he] at hv
      cases hv
    · rw [failureReport]
      split
      · exact .inr rfl
      · exact .inl rfl
    · rw [failureReport, he]
      cases failure <;> simp [EvalError.isSyntax, hwithin]

/-- **The console answers an equation as it has to.** -/
theorem isAnswer_answer (limit : Option Nat) (h : IsLine equation) :
    IsAnswer limit equation (answer limit equation) := by
  cases limit with
  | none => exact isAnswer_solve h fun most hmost => by cases hmost
  | some most =>
    rw [answer]
    by_cases hlt : most < equation.length
    · have hwithin : ¬ IsWithin (some most) equation := fun hwithin =>
        Nat.not_lt.2 (hwithin most rfl) hlt
      rw [if_pos hlt]
      have hnone : ∀ text, text ∈ none ↔ text = equation ∧ IsWithin (some most) equation :=
        fun text => ⟨fun h => (by cases h), fun h => absurd h.2 hwithin⟩
      refine isAnswer_refusal (fun h => hwithin h.1) hnone ?_ (.inr rfl)
        ⟨fun h => (by cases h), ?_⟩
      · show IsLine (_ ++ toString equation.length ++ _ ++ toString most ++ _)
        refine .append (.append (.append (.append ?_ (isLine_nat _)) ?_) (isLine_nat _)) ?_ <;>
          simp [IsLine, toString]
      · exact fun h => absurd h.1 hwithin
    · rw [if_neg hlt]
      refine isAnswer_solve h ?_
      rintro _ ⟨⟩
      exact Nat.not_lt.1 hlt

end Answers

/-! ## Sessions -/

section Sessions

variable {setting : Option String} {input : List UInt8}

theorem runLines_warnings (warnings : Log) (limit : Option Nat) (lines : List (List UInt8)) :
    (runLines warnings limit lines).warnings = warnings := by
  induction lines with
  | nil => rfl
  | cons line lines ih =>
    rw [runLines]
    cases react limit line with
    | stop => rfl
    | skip => exact ih
    | say answer => exact ih

/-- **The lines are answered one after the other**, up to the first that cannot be read. -/
theorem runLines_answers (warnings : Log) (limit : Option Nat) (lines : List (List UInt8)) :
    (runLines warnings limit lines).answers = (equationsIn lines).map (answer limit) := by
  induction lines with
  | nil => rfl
  | cons line lines ih =>
    rw [runLines, equationsIn, react]
    cases Line.ofBytes line with
    | unreadable => rfl
    | blank => exact ih
    | equation text =>
      rw [List.map_cons, ← ih]
      rfl

/-- Nothing of the input is left over if all its lines are texts. -/
theorem runLines_readable (warnings : Log) (limit : Option Nat) (lines : List (List UInt8)) :
    (runLines warnings limit lines).readable = true ↔ ∀ line ∈ lines, ∃ text, utf8 text = line := by
  induction lines with
  | nil => exact ⟨fun _ line hmem => (by cases hmem), fun _ => rfl⟩
  | cons line lines ih =>
    rw [runLines, react, List.forall_mem_cons, ← ih]
    by_cases h : ∃ text, utf8 text = line
    · obtain ⟨text, rfl⟩ := h
      have hexists : ∃ text', utf8 text' = utf8 text := ⟨text, rfl⟩
      rw [Line.ofBytes_utf8 (isTrimmed_trimBlanks text), and_iff_right hexists]
      by_cases hne : String.ofList (trimBlanks text.toList) = ""
      · rw [if_pos hne]
      · rw [if_neg hne]
        rfl
    · rw [Line.ofBytes_eq_unreadable fun text htext => h ⟨text, htext⟩]
      simp [h]

/-- **The console fails if a line is no text**, and only then. -/
theorem exitCode_run (setting : Option String) (input : List UInt8) :
    (run setting [] input).exitCode = 0 ↔ ∀ line ∈ input.splitOn 10, ∃ text, utf8 text = line := by
  rw [← runLines_readable (limitWarnings setting) (setting.bind readLimit?), run, if_pos rfl,
    splitLines_eq_splitOn, Transcript.exitCode, ite_eq_left_iff]
  simp

theorem answers_run (setting : Option String) (input : List UInt8) :
    (run setting [] input).answers =
      (equationsIn (input.splitOn 10)).map (answer (setting.bind readLimit?)) := by
  rw [run, if_pos rfl, splitLines_eq_splitOn, runLines_answers]

theorem warnings_run (setting : Option String) (input : List UInt8) :
    (run setting [] input).warnings = limitWarnings setting := by
  rw [run, if_pos rfl, runLines_warnings]

theorem toList_output (transcript : Transcript) :
    transcript.output.toList =
      transcript.answers.flatMap fun answer => answer.text.toList ++ ['\n'] := by
  have hfold : ∀ (answers : List Answer) (out : String),
      (answers.foldl (fun out answer => (out ++ answer.text).push '\n') out).toList =
        out.toList ++ answers.flatMap fun answer => answer.text.toList ++ ['\n'] := by
    intro answers
    induction answers with
    | nil => intro out; simp
    | cons answer answers ih => intro out; simp [ih]
  rw [Transcript.output, hfold, String.toList_empty, List.nil_append]

/-- Every equation stands on one line. -/
theorem HasEquations.isLine {lines : List (List UInt8)} {equations : List String}
    (h : HasEquations lines equations) (hlines : ∀ line ∈ lines, 10 ∉ line) :
    ∀ equation ∈ equations, IsLine equation := by
  induction h with
  | nil | unreadable => intro equation hmem; cases hmem
  | blank _ _ ih => exact ih fun line hl => hlines line (.tail _ hl)
  | @equation text equation lines equations h _ _ ih =>
    intro other hmem
    rcases List.mem_cons.1 hmem with rfl | hmem
    · obtain ⟨⟨left, right, htext, -⟩, -, -⟩ := h
      have hline := isLine_iff.2 (hlines _ (.head _))
      rw [IsLine, htext] at hline
      exact fun hmem => hline (List.mem_append_left _ (List.mem_append_right _ hmem))
    · exact ih (fun line hl => hlines line (.tail _ hl)) other hmem

theorem level_of_mem_limitWarnings : ∀ entry ∈ limitWarnings setting, entry.level = .warn := by
  intro entry hentry
  unfold limitWarnings at hentry
  split at hentry
  · cases hentry
  · split at hentry
    · cases hentry
    · rw [List.mem_singleton.1 hentry]

theorem forall₂_answers {limit : Option Nat} {equations : List String}
    (h : ∀ equation ∈ equations, IsLine equation) :
    List.Forall₂ (IsAnswer limit) equations (equations.map (answer limit)) :=
  List.forall₂_map_right_iff.2 (List.forall₂_same.2 fun equation hmem =>
    isAnswer_answer limit (h equation hmem))

theorem evaluationLog_eq (explain : String → String) :
    evaluationLog explain = Log.ofEvaluateWith explain := by
  funext text
  rw [evaluationLog, outcome_reportEvaluate, List.nil_append]
  exact Log.upTo_eq_self fun entry hentry => by rw [Log.level_of_mem_ofEvaluateWith entry hentry]

/-- **A run is a session** of the equations in its input. -/
theorem isSession_run (explain : String → String) {equations : List String}
    (h : HasEquations (input.splitOn 10) equations) :
    IsSession explain (setting.bind readLimit?) equations (run setting [] input).output
      ((run setting [] input).answers.filterMap Answer.report)
      ((run setting [] input).answers.flatMap (Answer.log explain)) := by
  rw [IsSession, evaluationLog_eq]
  refine ⟨_, forall₂_answers (h.isLine not_mem_of_mem_splitOn), ?_, ?_, ?_⟩
  · rw [toList_output, answers_run, hasEquations_iff.1 h]
  · rw [answers_run, hasEquations_iff.1 h]
  · rw [answers_run, hasEquations_iff.1 h]
    rfl

/-- What the console reports of an equation is at level `debug` or above. -/
theorem rank_of_mem_report {answer : Answer} (h : answer ∈ (run setting [] input).answers) :
    ∀ entry ∈ answer.report, entry.level.rank ≤ Level.debug.rank := by
  intro entry hentry
  rw [answers_run] at h
  obtain ⟨equation, hequation, rfl⟩ := List.mem_map.1 h
  have hline := (hasEquations_equationsIn _).isLine not_mem_of_mem_splitOn equation hequation
  rcases (isAnswer_answer _ hline).level entry hentry with hinfo | hdebug
  · rw [hinfo]
    decide
  · rw [hdebug]

theorem rank_of_mem_limitWarnings :
    ∀ entry ∈ limitWarnings setting, entry.level.rank ≤ Level.debug.rank := by
  intro entry hentry
  rw [level_of_mem_limitWarnings entry hentry]
  decide

/-- A listener at level `debug` misses nothing that the console reports. -/
theorem upTo_debug_log (setting : Option String) (input : List UInt8) :
    Log.upTo (some .debug) (run setting [] input).log =
      limitWarnings setting ++ (run setting [] input).answers.filterMap Answer.report := by
  rw [Transcript.log, warnings_run]
  refine Log.upTo_eq_self fun entry hentry => ?_
  rcases List.mem_append.1 hentry with hwarning | hreport
  · exact rank_of_mem_limitWarnings entry hwarning
  · obtain ⟨answer, hanswer, hentry⟩ := List.mem_filterMap.1 hreport
    exact rank_of_mem_report hanswer entry hentry

/-- Nor does it miss anything that the evaluations report. -/
theorem upTo_debug_fullLog (explain : String → String) (setting : Option String)
    (input : List UInt8) :
    Log.upTo (some .debug) ((run setting [] input).fullLog explain) =
      limitWarnings setting ++ (run setting [] input).answers.flatMap (Answer.log explain) := by
  rw [Transcript.fullLog, warnings_run]
  refine Log.upTo_eq_self fun entry hentry => ?_
  rcases List.mem_append.1 hentry with hwarning | hentry
  · exact rank_of_mem_limitWarnings entry hwarning
  · obtain ⟨answer, hanswer, hentry⟩ := List.mem_flatMap.1 hentry
    rcases List.mem_append.1 hentry with hevaluation | hreport
    · obtain ⟨text, -, hentry⟩ := List.mem_flatMap.1 hevaluation
      rw [Log.level_of_mem_ofEvaluateWith entry hentry]
    · exact rank_of_mem_report hanswer entry (Option.mem_toList.1 hreport)

/-! ## One input after another -/

theorem equationsIn_append {lines lines' : List (List UInt8)}
    (h : ∀ line ∈ lines, ∃ text, utf8 text = line) :
    equationsIn (lines ++ lines') = equationsIn lines ++ equationsIn lines' := by
  induction lines with
  | nil => rfl
  | cons line lines ih =>
    obtain ⟨text, rfl⟩ := h line (.head _)
    replace ih := ih fun line hl => h line (.tail _ hl)
    have htrimmed := isTrimmed_trimBlanks text
    rw [List.cons_append]
    by_cases hne : String.ofList (trimBlanks text.toList) = ""
    · rw [hne] at htrimmed
      rw [equationsIn_blank htrimmed, equationsIn_blank htrimmed, ih]
    · rw [equationsIn_equation htrimmed hne, equationsIn_equation htrimmed hne, ih,
        List.cons_append]

/-- **A text and then more input are answered one after the other.** -/
theorem output_append (setting : Option String) (text : String) (more : List UInt8) :
    (run setting [] (utf8 text ++ 10 :: more)).output =
      (run setting [] (utf8 text)).output ++ (run setting [] more).output := by
  have hreadable : ∀ line ∈ (utf8 text).splitOn 10, ∃ text', utf8 text' = line := by
    intro line hline
    rw [splitOn_utf8] at hline
    obtain ⟨chars, -, rfl⟩ := List.mem_map.1 hline
    exact ⟨_, rfl⟩
  rw [← String.toList_inj, String.toList_append, toList_output, toList_output, toList_output,
    answers_run, answers_run, answers_run, List.splitOn_append_cons_self,
    equationsIn_append hreadable, List.map_append, List.flatMap_append]

end Sessions

/-- **Every line of the input is answered once, in order and independently.**  The limit can be set
to any number of 64 bits, or not at all.  Whatever puts it in force: the lines have one list of
equations; the output has an answer for each of these and nothing else, and so has the console's own
log after the warnings for each that is refused.  The whole log has these entries among those of the
evaluations.  And what follows a text and a line feed is answered as if it were alone. -/
theorem run_answers_lines (explain : String → String) (limit : Option Nat)
    (hlimit : ∀ most ∈ limit, most < UInt64.size) (input : List UInt8) :
    IsSetting (limit.map toString) limit ∧
    ∀ setting, IsSetting setting limit →
      (∃! equations, HasEquations (input.splitOn 10) equations) ∧
      (∀ equations, HasEquations (input.splitOn 10) equations → ∃ own whole,
        Log.upTo (some .debug) (run setting [] input).log = limitWarnings setting ++ own ∧
        Log.upTo (some .debug) ((run setting [] input).fullLog explain) =
          limitWarnings setting ++ whole ∧
        IsSession explain limit equations (run setting [] input).output own whole) ∧
      ∀ (text : String) (more : List UInt8),
        (run setting [] (utf8 text ++ 10 :: more)).output =
          (run setting [] (utf8 text)).output ++ (run setting [] more).output := by
  refine ⟨isSetting_toString hlimit, fun setting hsetting => ?_⟩
  obtain rfl := isSetting_iff.1 hsetting
  refine ⟨?equations, fun equations h => ?session, output_append setting⟩
  case equations =>
    exact ⟨_, hasEquations_equationsIn _, fun equations h => (hasEquations_iff.1 h).symm⟩
  case session =>
    exact ⟨_, _, upTo_debug_log setting input, upTo_debug_fullLog explain setting input,
      isSession_run explain h⟩

/-- With the limit set to 3, `1+1+1` is refused without a look at it and `1+1` is answered. -/
theorem run_answers_lines_limit_three :
    (∀ most ∈ some 3, most < UInt64.size) ∧ IsSetting (some "3") (some 3) ∧
      HasEquations ((utf8 "1+1+1\n1+1").splitOn 10) ["1+1+1", "1+1"] ∧
      IsSession id (some 3) ["1+1+1", "1+1"]
        "Please make sure your equation is correct\nThe result of 1+1 is 2\n"
        [⟨.debug, "Rejected equation of 5 characters (limit 3)"⟩]
        [⟨.debug, "Rejected equation of 5 characters (limit 3)"⟩,
          ⟨.debug, "Parsing expression: 1+1"⟩,
          ⟨.debug,
            "Built tree: Chain \x7b first: Number(1.0), rest: [(Add, Number(1.0))] \x7d"⟩] := by
  have hlimit : ∀ most ∈ some 3, most < UInt64.size := by
    rintro _ ⟨⟩
    decide
  have hequations : HasEquations ((utf8 "1+1+1\n1+1").splitOn 10) ["1+1+1", "1+1"] :=
    hasEquations_iff.2 (by decide +kernel)
  obtain ⟨hsetting, hrun⟩ := run_answers_lines id (some 3) hlimit (utf8 "1+1+1\n1+1")
  obtain ⟨-, hsession, -⟩ := hrun (some "3") hsetting
  obtain ⟨own, whole, hown, hwhole, h⟩ := hsession _ hequations
  have hwarnings : limitWarnings (some "3") = [] := by decide +kernel
  rw [hwarnings, List.nil_append] at hown hwhole
  refine ⟨hlimit, hsetting, hequations, ?_⟩
  convert h using 1
  · decide +kernel
  · rw [← hown]
    decide +kernel
  · rw [← hwhole]
    decide +kernel

/-- The whole log also has entries where nothing is refused: those of the evaluation. -/
theorem fullLog_without_refusal :
    (run none [] (utf8 "2+3")).output = "The result of 2+3 is 5\n" ∧
      ((run none [] (utf8 "2+3")).answers.filter fun answer => answer.text = refusal) = [] ∧
      limitWarnings none = [] ∧
      Log.upTo (some .debug) ((run none [] (utf8 "2+3")).fullLog id) =
        [⟨.debug, "Parsing expression: 2+3"⟩,
          ⟨.debug,
            "Built tree: Chain \x7b first: Number(2.0), rest: [(Add, Number(3.0))] \x7d"⟩] := by
  refine ⟨?_, ?_, rfl, ?_⟩ <;> decide +kernel

end Console
end Calculator
