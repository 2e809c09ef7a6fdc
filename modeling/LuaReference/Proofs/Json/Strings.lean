import LuaReference.Json.Reader
import LuaReference.Json.Writer

set_option autoImplicit false

/-! # Strings are read as they were written

A written string is read back in front of any rest (`readString_escape`). Every character is read
back on its own (`content?_escape`): most as themselves, and those control characters that have no
letter of their own as a code unit. Such a unit is no half of a surrogate pair, so it stands for
its character whatever comes behind it, and whatever characters stand for halves.
-/

namespace LuaReference.Json

/-! ## Characters -/

/-- The control characters that have a letter of their own behind the backslash. -/
def lettered : List Char := ['\n', '\r', '\t', '\x0c', '\x08']

/-- The part of a string that a written character is read as. -/
def writtenUnit (c : Char) : CodeUnit :=
  if c.toNat < 0x20 && !lettered.contains c then .unit c.toNat else .char c

theorem hexValue?_hexDigit : ∀ n < 16, hexValue? (hexDigit n) = some n := by decide

/-- Four digits, of which the first two are zero, spell a number below 256. -/
theorem hexUnit?_hexDigit {n : Nat} (h : n < 0x100) :
    hexUnit? '0' '0' (hexDigit (n / 16)) (hexDigit (n % 16)) = some (.unit n) := by
  have hzero : hexValue? '0' = some 0 := rfl
  have hhigh : hexValue? (hexDigit (n / 16)) = some (n / 16) := hexValue?_hexDigit _ (by omega)
  have hlow : hexValue? (hexDigit (n % 16)) = some (n % 16) := hexValue?_hexDigit _ (by omega)
  have hsum : 256 * (16 * 0 + 0) + (16 * (n / 16) + n % 16) = n := by omega
  simp only [hexUnit?, hzero, hhigh, hlow, bind, Option.bind, pure, hsum]

theorem content?_letter {letter c : Char} (hu : letter ≠ 'u') (h : unescape? letter = some c)
    (rest : Text) :
    content? ('\\' :: letter :: rest) =
      (content? rest).map fun found => (.char c :: found.1, found.2) := by
  rw [content?]
  · simp only [h, bind, Option.bind]
    cases content? rest <;> rfl
  · intro _ _ _ _ _ hu' _
    exact hu hu'

theorem content?_cons {c : Char} (hquote : c ≠ '"') (hslash : c ≠ '\\') (h : 0x20 ≤ c.toNat)
    (rest : Text) :
    content? (c :: rest) = (content? rest).map fun found => (.char c :: found.1, found.2) := by
  have htest : (c = '\\' || c.toNat < 0x20) = false := by simp [hslash, h]
  rw [content?, htest]
  · simp only [bind, Option.bind, Bool.false_eq_true, if_false]
    cases content? rest <;> rfl
  · intro hc
    exact hquote hc
  · intro _ _ _ _ _ hc _
    exact hslash hc
  · intro _ _ hc _
    exact hslash hc

/-- A character is written in one of three ways: by a letter behind a backslash, by its number, or
as it is. -/
inductive WrittenAs (c : Char) : Text → CodeUnit → Prop where
  | letter {letter : Char} (noNumber : letter ≠ 'u') (read : unescape? letter = some c) :
      WrittenAs c ['\\', letter] (.char c)
  | number (control : c.toNat < 0x20) :
      WrittenAs c ['\\', 'u', '0', '0', hexDigit (c.toNat / 16), hexDigit (c.toNat % 16)]
        (.unit c.toNat)
  | plain (quote : c ≠ '"') (backslash : c ≠ '\\') (printed : 0x20 ≤ c.toNat) :
      WrittenAs c [c] (.char c)

theorem writtenAs_escape (c : Char) : WrittenAs c (escape c) (writtenUnit c) := by
  by_cases hletter : c ∈ '"' :: '\\' :: lettered
  · have hall : ∀ c ∈ '"' :: '\\' :: lettered, ∃ letter, escape c = ['\\', letter] ∧
        writtenUnit c = .char c ∧ letter ≠ 'u' ∧ unescape? letter = some c := by
      simp only [lettered, List.forall_mem_cons]
      exact ⟨⟨'"', by decide⟩, ⟨'\\', by decide⟩, ⟨'n', by decide⟩, ⟨'r', by decide⟩,
        ⟨'t', by decide⟩, ⟨'f', by decide⟩, ⟨'b', by decide⟩, by simp⟩
    obtain ⟨letter, hescape, hunit, hu, hread⟩ := hall c hletter
    rw [hescape, hunit]
    exact .letter hu hread
  · simp only [lettered, List.mem_cons, List.not_mem_nil, or_false, not_or] at hletter
    obtain ⟨hquote, hslash, hn, hr, ht, hf, hb⟩ := hletter
    have hnone : lettered.contains c = false := by simp [lettered, hn, hr, ht, hf, hb]
    rw [escape, if_neg hquote, if_neg hslash, if_neg hn, if_neg hr, if_neg ht, if_neg hf,
      if_neg hb, writtenUnit, hnone]
    by_cases hcontrol : c.toNat < 0x20
    · rw [if_pos hcontrol, if_pos (by simpa using hcontrol)]
      exact .number hcontrol
    · rw [if_neg hcontrol, if_neg (by simpa using hcontrol)]
      exact .plain hquote hslash (Nat.le_of_not_lt hcontrol)

/-- A written character is read back, whatever stands behind it. -/
theorem content?_escape (c : Char) (rest : Text) :
    content? (escape c ++ rest) =
      (content? rest).map fun found => (writtenUnit c :: found.1, found.2) := by
  have hwritten := writtenAs_escape c
  generalize escape c = text at hwritten ⊢
  generalize writtenUnit c = unit at hwritten ⊢
  cases hwritten with
  | letter hu hread => exact content?_letter hu hread rest
  | number hcontrol =>
      simp only [List.cons_append, List.nil_append, content?, bind, Option.bind,
        hexUnit?_hexDigit (Nat.lt_trans hcontrol (by decide))]
      cases content? rest <;> rfl
  | plain hquote hslash hprinted => exact content?_cons hquote hslash hprinted rest

/-! ## Strings -/

/-- The parts of a written string are read back up to its closing quote. -/
theorem content?_flatMap_escape (text rest : Text) :
    content? (text.flatMap escape ++ '"' :: rest) = some (text.map writtenUnit, rest) := by
  induction text with
  | nil => rfl
  | cons c text ih =>
      rw [List.flatMap_cons, List.append_assoc, content?_escape, ih]
      rfl

/-- A unit that is no first half of a pair stands alone. -/
theorem text_unit (row : Placeholders) {n : Nat} (h : isHighHalf n = false)
    (rest : List CodeUnit) : row.text (.unit n :: rest) = row.char n :: row.text rest := by
  cases rest with
  | nil => rfl
  | cons unit rest =>
      cases unit with
      | char c => rfl
      | unit low =>
          rw [Placeholders.text, h]
          rfl

/-- The units that a written string is read as spell the string. -/
theorem text_map_writtenUnit (row : Placeholders) (text : Text) :
    row.text (text.map writtenUnit) = text := by
  induction text with
  | nil => rfl
  | cons c text ih =>
      rw [List.map_cons]
      have hwritten := writtenAs_escape c
      generalize escape c = shown at hwritten
      generalize writtenUnit c = unit at hwritten ⊢
      cases hwritten with
      | letter hu hread => rw [Placeholders.text, ih]
      | plain hquote hslash hprinted => rw [Placeholders.text, ih]
      | number hcontrol =>
          have hhigh : isHighHalf c.toNat = false := by
            simp only [isHighHalf, Bool.and_eq_false_iff, decide_eq_false_iff_not]
            omega
          have hlow : isLowHalf c.toNat = false := by
            simp only [isLowHalf, Bool.and_eq_false_iff, decide_eq_false_iff_not]
            omega
          have hchar : row.char c.toNat = c := by
            simp [Placeholders.char, hhigh, hlow]
          rw [text_unit row hhigh, hchar, ih]

theorem quote_append (text rest : Text) :
    quote text ++ rest = '"' :: (text.flatMap escape ++ '"' :: rest) := by
  rw [quote, List.cons_append, List.append_assoc]
  rfl

/-- **A string is read back** behind its opening quote, in front of any rest. -/
theorem readString_escape (row : Placeholders) (text rest : Text) :
    readString row (text.flatMap escape ++ '"' :: rest) = .ok (text, rest) := by
  simp only [readString, content?_flatMap_escape, text_map_writtenUnit]

/-- A written string keeps its line feeds behind backslashes. -/
theorem lineFeed_not_mem_quote (text : Text) : '\n' ∉ quote text := by
  have hescape (c : Char) : '\n' ∉ escape c := by
    have hwritten := writtenAs_escape c
    generalize escape c = shown at hwritten ⊢
    generalize writtenUnit c = unit at hwritten
    cases hwritten with
    | letter hu hread =>
        simp only [List.mem_cons, List.not_mem_nil, or_false, not_or]
        refine ⟨by decide, ?_⟩
        rintro rfl
        cases hread
    | number hcontrol =>
        have hdigit : ∀ n < 16, hexDigit n ≠ '\n' := by decide
        have hhigh := hdigit (c.toNat / 16) (by omega)
        have hlow := hdigit (c.toNat % 16) (by omega)
        simp [hhigh.symm, hlow.symm]
    | plain hquote hslash hprinted =>
        rw [List.mem_singleton]
        rintro rfl
        exact absurd hprinted (by decide)
  simp [quote, hescape]

end LuaReference.Json
