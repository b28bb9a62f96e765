/-!
# Texts as bytes and as lines

A text is written as the bytes of its characters in UTF-8.  Not every list of bytes is written for a
text, and none for two (`fromUTF8?_eq_some_iff`).

Lines end at line feeds.  The byte of a line feed stands for nothing else, so it makes no difference
whether a text is split into lines before it is written or after (`splitOn_utf8`).
-/

set_option autoImplicit false

namespace Calculator

/-- The bytes that a text is written as. -/
def utf8 (text : String) : List UInt8 := text.toUTF8.data.toList

/-- The text stays on one line. -/
def IsLine (text : String) : Prop := '\n' ∉ text.toList

/-! ## Bytes -/

theorem utf8_eq_flatMap (text : String) :
    utf8 text = text.toList.flatMap String.utf8EncodeChar := by
  rw [utf8, String.toUTF8_eq_toByteArray, ← String.utf8Encode_toList, List.utf8Encode,
    List.data_toByteArray]

theorem utf8_ofList (chars : List Char) :
    utf8 (String.ofList chars) = chars.flatMap String.utf8EncodeChar := by
  rw [utf8_eq_flatMap, String.toList_ofList]

/-- **A text is read from the bytes that it is written as**, and from no others. -/
theorem fromUTF8?_eq_some_iff {bytes : List UInt8} {text : String} :
    String.fromUTF8? ⟨bytes.toArray⟩ = some text ↔ utf8 text = bytes := by
  rw [utf8, String.toUTF8_eq_toByteArray, String.fromUTF8?]
  constructor
  · intro h
    split at h
    · obtain rfl := Option.some.inj h
      rfl
    · cases h
  · rintro rfl
    rw [dif_pos text.isValidUTF8]
    rfl

theorem le_toNat_ofNat {n high : Nat} (h : 128 ≤ high) (hlt : n + high < 256) :
    128 ≤ (UInt8.ofNat (n + high)).toNat := by
  rw [UInt8.toNat_ofNat', Nat.mod_eq_of_lt hlt]
  omega

/-- The bytes of a character beyond ASCII have their highest bit set. -/
theorem le_toNat_of_mem_utf8EncodeChar {c : Char} (h : ¬ c.val.toNat ≤ 0x7f) :
    ∀ byte ∈ String.utf8EncodeChar c, 128 ≤ byte.toNat := by
  rw [String.utf8EncodeChar]
  simp only [h, if_false]
  -- two, three or four bytes
  split
  · simp only [List.mem_cons, List.not_mem_nil, or_false]
    rintro byte (rfl | rfl) <;> exact le_toNat_ofNat (by omega) (by omega)
  split
  · simp only [List.mem_cons, List.not_mem_nil, or_false]
    rintro byte (rfl | rfl | rfl) <;> exact le_toNat_ofNat (by omega) (by omega)
  · simp only [List.mem_cons, List.not_mem_nil, or_false]
    rintro byte (rfl | rfl | rfl | rfl) <;> exact le_toNat_ofNat (by omega) (by omega)

theorem utf8EncodeChar_lineFeed : String.utf8EncodeChar '\n' = [10] := rfl

/-- **The byte of a line feed stands for nothing else.** -/
theorem lineFeed_mem_utf8EncodeChar {c : Char} : 10 ∈ String.utf8EncodeChar c ↔ c = '\n' := by
  refine ⟨fun h => ?_, fun h => by rw [h, utf8EncodeChar_lineFeed]; exact .head _⟩
  by_cases hlt : c.val.toNat ≤ 0x7f
  · have hbytes : String.utf8EncodeChar c = [UInt8.ofNat c.val.toNat] := if_pos hlt
    rw [hbytes, List.mem_singleton, ← UInt8.toNat_inj, UInt8.toNat_ofNat',
      Nat.mod_eq_of_lt (by omega)] at h
    exact Char.toNat_inj.1 h.symm
  · exact absurd (le_toNat_of_mem_utf8EncodeChar hlt 10 h) (by decide)

/-- A text stays on one line if its bytes do. -/
theorem isLine_iff {text : String} : IsLine text ↔ 10 ∉ utf8 text := by
  rw [IsLine, utf8_eq_flatMap, List.mem_flatMap]
  refine not_congr ⟨fun h => ⟨'\n', h, lineFeed_mem_utf8EncodeChar.2 rfl⟩, ?_⟩
  rintro ⟨c, hc, h⟩
  exact lineFeed_mem_utf8EncodeChar.1 h ▸ hc

/-! ## Lines -/

section Lines

variable {α : Type} [BEq α] [LawfulBEq α] {a : α}

theorem splitOn_append {front : List α} (h : a ∉ front) (rest : List α) :
    (front ++ rest).splitOn a = (rest.splitOn a).modifyHead (front ++ ·) := by
  induction front with
  | nil =>
    obtain ⟨line, lines, hlines⟩ := List.exists_cons_of_ne_nil (List.splitOn_ne_nil a rest)
    rw [List.nil_append, hlines]
    rfl
  | cons b front ih =>
    rw [List.mem_cons, not_or] at h
    rw [List.cons_append, List.splitOn_cons_eq_if_modifyHead, if_neg (by simpa using Ne.symm h.1),
      ih h.2, List.modifyHead_modifyHead]
    rfl

/-- No line has a separator in it. -/
theorem not_mem_of_mem_splitOn {whole : List α} : ∀ line ∈ whole.splitOn a, a ∉ line := by
  induction whole with
  | nil => simp
  | cons b whole ih =>
    obtain ⟨line, lines, hlines⟩ := List.exists_cons_of_ne_nil (List.splitOn_ne_nil a whole)
    rw [hlines, List.forall_mem_cons] at ih
    rw [List.splitOn_cons_eq_if_modifyHead, hlines, List.modifyHead_cons]
    split
    · exact List.forall_mem_cons.2 ⟨List.not_mem_nil, List.forall_mem_cons.2 ih⟩
    · rename_i hne
      refine List.forall_mem_cons.2 ⟨?_, ih.2⟩
      rw [List.mem_cons, not_or]
      exact ⟨fun h => hne (by simp [h]), ih.1⟩

end Lines

/-- **The lines of a text are written as the lines of its bytes.** -/
theorem splitOn_utf8 (text : String) :
    (utf8 text).splitOn 10 =
      (text.toList.splitOn '\n').map fun line => utf8 (String.ofList line) := by
  simp only [utf8_ofList]
  rw [utf8_eq_flatMap]
  induction text.toList with
  | nil => rfl
  | cons c chars ih =>
    obtain ⟨line, lines, hlines⟩ := List.exists_cons_of_ne_nil (List.splitOn_ne_nil '\n' chars)
    rw [List.flatMap_cons, List.splitOn_cons_eq_if_modifyHead]
    by_cases hc : c = '\n'
    · subst hc
      rw [utf8EncodeChar_lineFeed, List.singleton_append, List.splitOn_cons_eq_if_modifyHead, ih]
      rfl
    · rw [splitOn_append (mt lineFeed_mem_utf8EncodeChar.1 hc), ih, if_neg (by simpa using hc),
        hlines]
      rfl

/-! ## Single lines -/

theorem IsLine.append {left right : String} (hleft : IsLine left) (hright : IsLine right) :
    IsLine (left ++ right) := by
  rw [IsLine, String.toList_append, List.mem_append, not_or]
  exact ⟨hleft, hright⟩

theorem isLine_ofList {chars : List Char} : IsLine (String.ofList chars) ↔ '\n' ∉ chars := by
  rw [IsLine, String.toList_ofList]

theorem isLine_singleton {c : Char} : IsLine (toString c) ↔ c ≠ '\n' := by
  show '\n' ∉ (String.singleton c).toList ↔ _
  rw [String.toList_singleton, List.mem_singleton, eq_comm]

theorem toList_nat (n : Nat) : (toString n).toList = Nat.toDigits 10 n := String.toList_ofList

theorem isLine_nat (n : Nat) : IsLine (toString n) := by
  rw [IsLine, toList_nat]
  exact fun h => absurd (Nat.isDigit_of_mem_toDigits (by decide) (by decide) h) (by decide)

end Calculator
