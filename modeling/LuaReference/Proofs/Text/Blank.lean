import LuaReference.Text.Blank
import LuaReference.Text.Word
import Mathlib.Data.List.Basic
import Mathlib.Data.List.DropRight

set_option autoImplicit false

/-! # Trimmed texts

Trimming takes a run of blanks off either end (`eq_blanks_append_trim`), so a text is trimmed
already when neither its first nor its last character is a blank (`trim_eq_self_iff`). Words
hold no blanks (`isWord_eq_false_of_isBlank`), which is what ends a word, a name or a type in
front of the text behind it.
-/

namespace LuaReference

/-! ## Characters of a text

What is said of every character of a text is decided along the text, never by going through all
characters that there are. -/

instance (text : Text) (p : Char → Prop) [DecidablePred p] : Decidable (∀ c ∈ text, p c) :=
  List.decidableBAll p text

instance decidableForallMemOption (found : Option Char) (p : Char → Prop) [DecidablePred p] :
    Decidable (∀ c ∈ found, p c) :=
  Option.decidableForallMem found

/-- Two characters differ if a test tells them apart. -/
theorem ne_of_test {p : Char → Bool} {c d : Char} (hc : p c = true) (hd : p d = false) :
    c ≠ d := by
  rintro rfl
  rw [hc] at hd
  cases hd

/-- A text that begins with a character begins with no other. -/
theorem Text.head_cons {p : Char → Prop} {c : Char} (h : p c) (rest : Text) :
    ∀ d ∈ (c :: rest).head?, p d := by
  intro d hd
  obtain rfl : c = d := Option.some.inj hd
  exact h

theorem Text.head_append {p : Char → Prop} {text : Text} (hne : text ≠ [])
    (h : ∀ c ∈ text.head?, p c) (rest : Text) : ∀ c ∈ (text ++ rest).head?, p c := by
  rw [List.head?_append_of_ne_nil _ hne]
  exact h

/-- Behind a run of characters that may be empty, a text begins with the run or behind it. -/
theorem Text.head_run_append {p : Char → Prop} {run rest : Text} (h : ∀ c ∈ run, p c)
    (hr : ∀ c ∈ rest.head?, p c) : ∀ c ∈ (run ++ rest).head?, p c := by
  cases run with
  | nil => exact hr
  | cons c run => exact Text.head_cons (h c (by simp)) _

/-! ## Blanks and word characters -/

/-- The code points of the blanks, one by one. -/
def blankPoints : List Nat :=
  blankRanges.flatMap fun (low, high) => List.range' low (high + 1 - low)

theorem toNat_mem_blankPoints {c : Char} (h : isBlank c = true) : c.toNat ∈ blankPoints := by
  obtain ⟨⟨low, high⟩, hr, hc⟩ := List.any_eq_true.mp h
  simp only [Bool.and_eq_true, decide_eq_true_eq] at hc
  exact List.mem_flatMap.mpr ⟨_, hr, List.mem_range'_1.mpr ⟨hc.1, by omega⟩⟩

/-- A blank stands in no word. -/
theorem isWord_eq_false_of_isBlank {c : Char} (h : isBlank c = true) : isWord c = false := by
  -- the blanks are few enough to be tested one by one, the characters of words are not
  have hall : ∀ n ∈ blankPoints, isWord (Char.ofNat n) = false := by decide +kernel
  rw [← Char.ofNat_toNat c]
  exact hall _ (toNat_mem_blankPoints h)

theorem isBlank_eq_false_of_isWord {c : Char} (h : isWord c = true) : isBlank c = false := by
  by_contra hb
  rw [isWord_eq_false_of_isBlank (by simpa using hb)] at h
  cases h

namespace Text

/-- Nothing but blanks stands in a run of blanks. -/
theorem not_mem_blanks {blanks : Text} (h : ∀ c ∈ blanks, isBlank c = true) {c : Char}
    (hc : isBlank c = false) : c ∉ blanks := by
  intro hmem
  rw [h c hmem] at hc
  cases hc

/-! ## Blanks at the start -/

theorem skipBlanks_cons {c : Char} (h : isBlank c = false) (rest : Text) :
    skipBlanks (c :: rest) = c :: rest := by
  rw [skipBlanks, List.dropWhile_cons, h]
  rfl

theorem skipBlanks_cons_blank {c : Char} (h : isBlank c = true) (rest : Text) :
    skipBlanks (c :: rest) = skipBlanks rest := by
  rw [skipBlanks, List.dropWhile_cons, h]
  rfl

/-- Blanks in front of a text are skipped with those it begins with. -/
theorem skipBlanks_append {blanks : Text} (h : ∀ c ∈ blanks, isBlank c = true) (rest : Text) :
    skipBlanks (blanks ++ rest) = skipBlanks rest := by
  induction blanks with
  | nil => rfl
  | cons c blanks ih =>
      rw [List.cons_append, skipBlanks_cons_blank (h c (by simp)),
        ih (fun d hd => h d (by simp [hd]))]

theorem head_skipBlanks (text : Text) : ∀ c ∈ (skipBlanks text).head?, isBlank c = false := by
  intro c hc
  have hhead := List.head?_dropWhile_not isBlank text
  rw [show text.dropWhile isBlank = skipBlanks text from rfl, Option.mem_def.mp hc] at hhead
  simpa using hhead

theorem eq_blanks_append_skipBlanks (text : Text) :
    ∃ blanks : Text, text = blanks ++ skipBlanks text ∧ ∀ c ∈ blanks, isBlank c = true :=
  ⟨text.takeWhile isBlank, List.takeWhile_append_dropWhile.symm,
    fun _ hc => List.mem_takeWhile_imp hc⟩

/-- A text that begins with no blank is what is left of it behind its blanks. -/
theorem skipBlanks_eq_self {text : Text} (h : ∀ c ∈ text.head?, isBlank c = false) :
    skipBlanks text = text := by
  cases text with
  | nil => rfl
  | cons c rest => exact skipBlanks_cons (h c rfl) rest

/-- Behind a keyword, any number of blanks but none at all separate it from what follows. -/
theorem afterBlanks?_append {blanks : Text} (h : ∀ c ∈ blanks, isBlank c = true)
    (hne : blanks ≠ []) {rest : Text} (hr : ∀ c ∈ rest.head?, isBlank c = false) :
    afterBlanks? (blanks ++ rest) = some rest := by
  cases blanks with
  | nil => exact absurd rfl hne
  | cons c blanks =>
      rw [List.cons_append, afterBlanks?, if_pos (h c (by simp)),
        skipBlanks_append (fun d hd => h d (by simp [hd])), skipBlanks_eq_self hr]

theorem afterBlanks?_space {rest : Text} (hr : ∀ c ∈ rest.head?, isBlank c = false) :
    afterBlanks? (' ' :: rest) = some rest := by
  rw [afterBlanks?, if_pos (by decide), skipBlanks_eq_self hr]

/-- What follows blanks follows all of them. -/
theorem eq_append_of_afterBlanks? {text rest : Text} (h : afterBlanks? text = some rest) :
    ∃ blanks : Text, text = blanks ++ rest ∧ blanks ≠ [] ∧ ∀ c ∈ blanks, isBlank c = true := by
  cases text with
  | nil => cases h
  | cons c text =>
      rw [afterBlanks?, Option.ite_none_right_eq_some] at h
      obtain ⟨hc, hrest⟩ := h
      obtain rfl := Option.some.inj hrest
      obtain ⟨blanks, hsplit, hall⟩ := eq_blanks_append_skipBlanks text
      refine ⟨c :: blanks, ?_, by simp, List.forall_mem_cons.mpr ⟨hc, hall⟩⟩
      rw [List.cons_append, ← hsplit]

theorem isSome_afterBlanks? (text : Text) :
    (afterBlanks? text).isSome = true ↔
      ∃ blank more, isBlank blank = true ∧ text = blank :: more := by
  cases text with
  | nil => simp [afterBlanks?]
  | cons c text => simp [afterBlanks?]

/-! ## Blanks at the end -/

theorem dropTrailingBlanks_eq_rdropWhile (text : Text) :
    dropTrailingBlanks text = text.rdropWhile isBlank := by
  induction text with
  | nil => rfl
  | cons c rest ih =>
      have hcons : (c :: rest).rdropWhile isBlank =
          if rest.rdropWhile isBlank = [] then (if isBlank c then [] else [c])
          else c :: rest.rdropWhile isBlank := by
        simp only [List.rdropWhile, List.reverse_cons, List.dropWhile_append, List.isEmpty_iff,
          List.reverse_eq_nil_iff]
        split
        · by_cases hc : isBlank c <;> simp [hc]
        · simp
      rw [dropTrailingBlanks, hcons, ih]
      split
      · rename_i h
        rw [if_pos h]
      · rename_i h
        rw [if_neg h]

theorem dropTrailingBlanks_isPrefix (text : Text) : dropTrailingBlanks text <+: text := by
  rw [dropTrailingBlanks_eq_rdropWhile]
  exact List.rdropWhile_prefix _ _

/-! ## Both ends -/

/-- A text whose first and last characters are no blanks is trimmed, and no other text is. -/
theorem trim_eq_self_iff {text : Text} :
    trim text = text ↔
      (∀ c ∈ text.head?, isBlank c = false) ∧ ∀ c ∈ text.getLast?, isBlank c = false := by
  rw [trim, dropTrailingBlanks_eq_rdropWhile]
  constructor
  · intro h
    -- trimming at the end cannot make up for a character that is skipped at the start
    have hlen : text.length ≤ (skipBlanks text).length := by
      conv_lhs => rw [← h]
      exact (List.rdropWhile_prefix _ _).length_le
    have hskip : skipBlanks text = text := by
      refine (List.dropWhile_suffix isBlank).eq_of_length_le ?_
      exact hlen
    rw [hskip] at h
    refine ⟨fun c hc => ?_, fun c hc => ?_⟩
    · cases text with
      | nil => simp at hc
      | cons d rest =>
          obtain rfl : d = c := by simpa using hc
          have hfirst := List.dropWhile_eq_self_iff.mp hskip (by simp)
          simpa using hfirst
    · have hne : text ≠ [] := by rintro rfl; simp at hc
      have hlast := List.rdropWhile_eq_self_iff.mp h hne
      rw [List.getLast?_eq_some_getLast hne, Option.mem_some_iff] at hc
      simpa [hc] using hlast
  · rintro ⟨hfirst, hlast⟩
    rw [skipBlanks_eq_self hfirst, List.rdropWhile_eq_self_iff]
    intro hne
    have := hlast _ (by rw [List.getLast?_eq_some_getLast hne]; rfl)
    simp [this]

/-- Blanks in front of a text do not matter to its trimmed form. -/
theorem trim_append_left {blanks : Text} (h : ∀ c ∈ blanks, isBlank c = true) (text : Text) :
    trim (blanks ++ text) = trim text := by
  rw [trim, skipBlanks_append h, trim]

/-- A text that ends in a character that is no blank. -/
structure EndsInInk (text : Text) : Prop where
  ne_nil : text ≠ []
  getLast : ∀ c ∈ text.getLast?, isBlank c = false

theorem EndsInInk.append {back : Text} (h : EndsInInk back) (front : Text) :
    EndsInInk (front ++ back) := by
  refine ⟨by simp [h.ne_nil], ?_⟩
  rw [List.getLast?_append_of_ne_nil _ h.ne_nil]
  exact h.getLast

/-- A text that neither begins nor ends in a blank is trimmed. -/
theorem EndsInInk.trim_eq_self {text : Text} (h : EndsInInk text)
    (hhead : ∀ c ∈ text.head?, isBlank c = false) : trim text = text :=
  trim_eq_self_iff.mpr ⟨hhead, h.getLast⟩

/-- The blanks at the end of a text stand behind its last character that is no blank. -/
theorem dropTrailingBlanks_append {front : Text} (h : EndsInInk front) (back : Text) :
    dropTrailingBlanks (front ++ back) = front ++ dropTrailingBlanks back := by
  induction front with
  | nil => exact absurd rfl h.ne_nil
  | cons c rest ih =>
      rw [List.cons_append, dropTrailingBlanks]
      cases rest with
      | nil =>
          -- this is the last character of the front, which stays whatever stands behind it
          have hc : isBlank c = false := h.getLast c rfl
          rw [List.nil_append, hc]
          split
          · rename_i hnil
            rw [hnil]
            rfl
          · rfl
      | cons d rest =>
          have hrest : EndsInInk (d :: rest) :=
            ⟨by simp, fun e he => h.getLast e (by simpa using he)⟩
          rw [ih hrest]
          rfl

/-- What stands in front of a character that is no blank is trimmed at its start only. -/
theorem trim_append {front : Text} (h : EndsInInk front)
    (hhead : ∀ c ∈ front.head?, isBlank c = false) (back : Text) :
    trim (front ++ back) = front ++ dropTrailingBlanks back := by
  have hskip : skipBlanks (front ++ back) = front ++ back :=
    skipBlanks_eq_self (head_append h.ne_nil hhead back)
  rw [trim, hskip, dropTrailingBlanks_append h]

/-- Behind a character that is no blank a text is trimmed at its end only, and in front of it at its
start only. -/
theorem trim_append_cons {c : Char} (h : isBlank c = false) (front back : Text) :
    trim (front ++ c :: back) = skipBlanks front ++ c :: dropTrailingBlanks back := by
  have hskip : skipBlanks (front ++ c :: back) = skipBlanks front ++ c :: back := by
    induction front with
    | nil => exact skipBlanks_cons h back
    | cons d front ih =>
        rw [List.cons_append]
        cases hd : isBlank d with
        | true => rw [skipBlanks_cons_blank hd, skipBlanks_cons_blank hd, ih]
        | false => rw [skipBlanks_cons hd, skipBlanks_cons hd, List.cons_append]
  have hink : EndsInInk (skipBlanks front ++ [c]) :=
    EndsInInk.append ⟨by simp, by simpa using h⟩ _
  rw [trim, hskip, List.append_cons, dropTrailingBlanks_append hink, List.append_assoc,
    List.singleton_append]

/-- Trimming takes nothing but blanks off a text. -/
theorem eq_blanks_append_trim (text : Text) :
    ∃ front back : Text, text = front ++ trim text ++ back ∧
      (∀ c ∈ front, isBlank c = true) ∧ ∀ c ∈ back, isBlank c = true := by
  refine ⟨text.takeWhile isBlank, (skipBlanks text).rtakeWhile isBlank, ?_, ?_, ?_⟩
  · rw [trim, dropTrailingBlanks_eq_rdropWhile, List.append_assoc,
      List.rdropWhile_append_rtakeWhile]
    exact List.takeWhile_append_dropWhile.symm
  · exact fun c hc => List.mem_takeWhile_imp hc
  · exact fun c hc => List.mem_rtakeWhile_imp hc

theorem trim_isInfix (text : Text) : trim text <:+: text := by
  obtain ⟨front, back, htext, -⟩ := eq_blanks_append_trim text
  exact ⟨front, back, htext.symm⟩

/-- A trimmed text begins with no blank. -/
theorem head_trim (text : Text) : ∀ c ∈ (trim text).head?, isBlank c = false := by
  have hprefix : trim text <+: skipBlanks text := dropTrailingBlanks_isPrefix _
  intro c hc
  obtain ⟨back, hback⟩ := hprefix
  refine head_skipBlanks text c ?_
  rw [← hback, List.head?_append, Option.mem_def.mp hc]
  rfl

/-- Nor does it end in one. -/
theorem endsInInk_trim {text : Text} (h : trim text ≠ []) : EndsInInk (trim text) := by
  refine ⟨h, fun c hc => ?_⟩
  rw [List.getLast?_eq_some_getLast h, Option.mem_some_iff] at hc
  have hlast : ¬ isBlank ((trim text).getLast h) = true := by
    simp only [trim, dropTrailingBlanks_eq_rdropWhile] at h ⊢
    exact List.rdropWhile_last_not isBlank _ h
  rwa [hc, Bool.not_eq_true] at hlast

theorem dropTrailingBlanks_eq_nil {blanks : Text} (h : ∀ c ∈ blanks, isBlank c = true) :
    dropTrailingBlanks blanks = [] := by
  rw [dropTrailingBlanks_eq_rdropWhile]
  exact List.rdropWhile_eq_nil_iff.mpr h

/-- Blanks behind a text do not matter to its trimmed form. -/
theorem trim_append_right {blanks : Text} (h : ∀ c ∈ blanks, isBlank c = true) (text : Text) :
    trim (text ++ blanks) = trim text := by
  obtain ⟨front, back, htext, hfront, hback⟩ := eq_blanks_append_trim text
  have hblanks : ∀ c ∈ back ++ blanks, isBlank c = true := fun c hc =>
    (List.mem_append.mp hc).elim (hback c) (h c)
  conv_lhs => rw [htext]
  rw [List.append_assoc, List.append_assoc, trim_append_left hfront]
  by_cases ht : trim text = []
  · rw [ht, List.nil_append, ← List.append_nil (back ++ blanks), trim_append_left hblanks]
    rfl
  · rw [trim_append (endsInInk_trim ht) (head_trim text), dropTrailingBlanks_eq_nil hblanks,
      List.append_nil]

theorem trim_dropTrailingBlanks (text : Text) : trim (dropTrailingBlanks text) = trim text := by
  have hblanks : ∀ c ∈ text.rtakeWhile isBlank, isBlank c = true :=
    fun c hc => List.mem_rtakeWhile_imp hc
  rw [dropTrailingBlanks_eq_rdropWhile, ← trim_append_right hblanks,
    List.rdropWhile_append_rtakeWhile]

/-- Trimming takes no character off that is no blank. -/
theorem count_trim {c : Char} (h : isBlank c = false) (text : Text) :
    (trim text).count c = text.count c := by
  have hnone : ∀ blanks : Text, (∀ d ∈ blanks, isBlank d = true) → blanks.count c = 0 := by
    intro blanks hb
    refine List.count_eq_zero.mpr fun hc => ?_
    rw [hb c hc] at h
    cases h
  obtain ⟨front, back, htext, hfront, hback⟩ := eq_blanks_append_trim text
  conv_rhs => rw [htext]
  rw [List.count_append, List.count_append, hnone front hfront, hnone back hback]
  omega

end Text

end LuaReference
