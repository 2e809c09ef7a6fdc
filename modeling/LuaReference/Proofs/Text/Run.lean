import LuaReference.Proofs.Text.Blank
import LuaReference.Text.Search
import Mathlib.Data.List.Basic

set_option autoImplicit false

/-! # Runs of characters

A run of characters of one class ends where the text behind it begins with a character of no
such class, so it can be taken off again. This is how words, keywords and the parts between
separators are read back.
-/

namespace LuaReference.Text

/-- The longest run at the start of a text is the run it was written with. -/
theorem takeWhile_append {p : Char → Bool} {run rest : Text} (h : ∀ c ∈ run, p c = true)
    (hr : ∀ c ∈ rest.head?, p c = false) : (run ++ rest).takeWhile p = run := by
  rw [List.takeWhile_append_of_pos h]
  cases rest with
  | nil => simp
  | cons c rest => simp [hr c rfl]

/-- What stands behind the longest run is the text behind the run it was written with. -/
theorem dropWhile_append {p : Char → Bool} {run rest : Text} (h : ∀ c ∈ run, p c = true)
    (hr : ∀ c ∈ rest.head?, p c = false) : (run ++ rest).dropWhile p = rest := by
  rw [List.dropWhile_append_of_pos h]
  cases rest with
  | nil => rfl
  | cons c rest => simp [hr c rfl]

/-- Every text is a run with something behind it that does not continue the run. -/
theorem exists_run (p : Char → Bool) (text : Text) :
    ∃ run rest : Text, text = run ++ rest ∧ (∀ c ∈ run, p c = true) ∧
      ∀ c ∈ rest.head?, p c = false := by
  refine ⟨text.takeWhile p, text.dropWhile p, List.takeWhile_append_dropWhile.symm,
    fun c hc => List.mem_takeWhile_imp hc, fun c hc => ?_⟩
  have hhead := List.head?_dropWhile_not p text
  rw [Option.mem_def.mp hc] at hhead
  simpa using hhead

/-- A keyword is taken off the text it was put in front of. -/
theorem isPrefixOf?_append (keyword rest : Text) :
    keyword.isPrefixOf? (keyword ++ rest) = some rest :=
  List.isPrefixOf?_eq_some_iff_append_eq.mpr rfl

theorem isPrefixOf_cons_eq_false {m c : Char} (h : c ≠ m) (mark rest : Text) :
    (m :: mark).isPrefixOf (c :: rest) = false := by
  rw [List.isPrefixOf_cons_cons, beq_false_of_ne h.symm, Bool.false_and]

/-- A text holds a mark at its start or not, whatever stands behind it that begins with no
character of the mark. -/
theorem isPrefixOf_append {mark tail : Text} (h : ∀ c ∈ tail.head?, c ∉ mark) (text : Text) :
    mark.isPrefixOf (text ++ tail) = mark.isPrefixOf text := by
  induction mark generalizing text with
  | nil => simp
  | cons m mark ih =>
      cases text with
      | nil =>
          cases tail with
          | nil => rfl
          | cons c tail =>
              have hc : c ≠ m := fun heq => h c rfl (heq ▸ List.mem_cons_self)
              rw [List.nil_append, isPrefixOf_cons_eq_false hc]
              rfl
      | cons c text =>
          rw [List.cons_append, List.isPrefixOf_cons_cons, List.isPrefixOf_cons_cons,
            ih fun d hd hmem => h d hd (List.mem_cons_of_mem m hmem)]

/-! ## Words -/

/-- A word: one or more word characters. -/
structure IsWord (text : Text) : Prop where
  ne_nil : text ≠ []
  chars : ∀ c ∈ text, isWord c = true

theorem IsWord.head {word : Text} (h : IsWord word) (rest : Text) :
    ∃ c ∈ (word ++ rest).head?, isWord c = true := by
  cases word with
  | nil => exact absurd rfl h.ne_nil
  | cons c word => exact ⟨c, rfl, h.chars c (by simp)⟩

/-- A text that begins with a word begins with no blank. -/
theorem IsWord.head_not_blank {word : Text} (h : IsWord word) (rest : Text) :
    ∀ c ∈ (word ++ rest).head?, isBlank c = false := by
  obtain ⟨d, hd, hw⟩ := h.head rest
  intro c hc
  obtain rfl := Option.mem_unique hc hd
  exact isBlank_eq_false_of_isWord hw

theorem IsWord.startsWord {word : Text} (h : IsWord word) (rest : Text) :
    startsWord (word ++ rest) = true := by
  obtain ⟨c, hc, hw⟩ := h.head rest
  rw [Text.startsWord, Option.mem_def.mp hc]
  exact hw

/-- A word is read back in front of a text that does not continue it. -/
theorem word?_append {word rest : Text} (h : IsWord word)
    (hr : ∀ c ∈ rest.head?, isWord c = false) : word? (word ++ rest) = some (word, rest) := by
  rw [word?, if_pos (h.startsWord rest), takeWhile_append h.chars hr, dropWhile_append h.chars hr]

theorem IsWord.endsInInk {word : Text} (h : IsWord word) : EndsInInk word :=
  ⟨h.ne_nil, fun c hc => isBlank_eq_false_of_isWord (h.chars c (List.mem_of_getLast? hc))⟩

/-- What is read at the start of a text is the first thing found in it. -/
theorem search_of_eq_some {α : Type} {recognise : Recogniser α} {text rest : Text} {value : α}
    (h : recognise text = some (value, rest)) : search recognise text = some ⟨0, value, rest⟩ := by
  cases text with
  | nil => rw [search, h, Option.map_some]
  | cons c text => rw [search, h]

/-! ## Separated parts -/

/-- A part without the separator is its own only part. -/
theorem splitAtEach_part {mark : Char} {part : Text} (h : ∀ c ∈ part, c ≠ mark) :
    splitAtEach mark part = [part] := by
  induction part with
  | nil => rfl
  | cons c part ih =>
      rw [splitAtEach, if_neg (h c (by simp)), ih fun d hd => h d (List.mem_cons_of_mem _ hd)]

/-- The first separator closes the part in front of it. -/
theorem splitAtEach_append {mark : Char} {part : Text} (h : ∀ c ∈ part, c ≠ mark) (rest : Text) :
    splitAtEach mark (part ++ mark :: rest) = part :: splitAtEach mark rest := by
  induction part with
  | nil => rw [List.nil_append, splitAtEach, if_pos rfl]
  | cons c part ih =>
      rw [List.cons_append, splitAtEach, if_neg (h c (by simp)),
        ih fun d hd => h d (List.mem_cons_of_mem _ hd)]

/-! ## Parts of a text around a separator -/

/-- What stands in front of a separator that the word does not hold. -/
theorem exists_of_append_eq_cons {word behind front rest : Text} {separator : Char}
    (hs : separator ∉ word) (h : word ++ behind = front ++ separator :: rest) :
    ∃ more, front = word ++ more ∧ behind = more ++ separator :: rest := by
  rcases List.append_eq_append_iff.mp h with ⟨more, hfront, hbehind⟩ | ⟨more, hword, hrest⟩
  · exact ⟨more, hfront, hbehind⟩
  · cases more with
    | nil => exact ⟨[], by simpa using hword.symm, by simpa using hrest.symm⟩
    | cons c more =>
        obtain ⟨rfl, -⟩ := List.cons.inj hrest
        exact absurd (hword ▸ List.mem_append_right front List.mem_cons_self) hs

/-- A word stands on one side of a separator that it does not hold. -/
theorem isInfix_append_cons {word front rest : Text} {separator : Char}
    (hs : separator ∉ word) (hne : word ≠ []) :
    word <:+: front ++ separator :: rest ↔ word <:+: front ∨ word <:+: rest := by
  constructor
  · rintro ⟨before, behind, h⟩
    rw [List.append_assoc] at h
    rcases List.append_eq_append_iff.mp h with ⟨more, rfl, hmore⟩ | ⟨more, rfl, hmore⟩
    · obtain ⟨more, rfl, -⟩ := exists_of_append_eq_cons hs hmore
      exact .inl ⟨before, more, (List.append_assoc _ _ _)⟩
    · cases more with
      | nil =>
          -- then the separator would be the first character of the word
          cases word with
          | nil => exact absurd rfl hne
          | cons c word =>
              obtain ⟨rfl, -⟩ := List.cons.inj hmore
              exact absurd List.mem_cons_self hs
      | cons c more =>
          obtain ⟨rfl, rfl⟩ := List.cons.inj hmore
          exact .inr ⟨more, behind, List.append_assoc _ _ _⟩
  · rintro (h | h)
    · exact h.trans (List.prefix_append _ _).isInfix
    · exact h.trans ((List.suffix_cons _ _).trans (List.suffix_append _ _)).isInfix

theorem isInfix_cons {word rest : Text} {separator : Char} (hs : separator ∉ word)
    (hne : word ≠ []) : word <:+: separator :: rest ↔ word <:+: rest := by
  have hsplit : word <:+: [] ++ separator :: rest ↔ word <:+: [] ∨ word <:+: rest :=
    isInfix_append_cons hs hne
  rwa [List.nil_append, or_iff_right fun h => hne (List.infix_nil.mp h)] at hsplit

/-! ## Cut texts -/

theorem cutAt_cons (mark : Text) (c : Char) (rest : Text) :
    cutAt mark (c :: rest) =
      if mark.isPrefixOf (c :: rest) then [] else c :: cutAt mark rest := by
  unfold cutAt
  rw [before?]
  split
  · rfl
  · cases before? mark rest with
    | none => rfl
    | some front => rfl

theorem cutAt_nil (mark : Text) : cutAt mark [] = [] := by
  unfold cutAt
  rw [before?]
  split <;> rfl

/-- A text is cut at nothing that it does not hold. -/
theorem cutAt_eq_self {mark text : Text} (h : ¬ mark <:+: text) : cutAt mark text = text := by
  induction text with
  | nil => exact cutAt_nil mark
  | cons c rest ih =>
      have hhere : ¬ mark.isPrefixOf (c :: rest) = true := by
        intro hprefix
        exact h (List.isPrefixOf_iff_prefix.mp hprefix).isInfix
      have hrest : ¬ mark <:+: rest := fun hin => h (hin.trans (List.suffix_cons c rest).isInfix)
      rw [cutAt_cons, if_neg hhere, ih hrest]

/-- A text is not cut in front of the first character of the mark. -/
theorem cutAt_append {m : Char} {mark front : Text} (h : ∀ c ∈ front, c ≠ m) (rest : Text) :
    cutAt (m :: mark) (front ++ rest) = front ++ cutAt (m :: mark) rest := by
  induction front with
  | nil => rfl
  | cons c front ih =>
      have hhere : (m :: mark).isPrefixOf (c :: (front ++ rest)) = false :=
        isPrefixOf_cons_eq_false (h c (by simp)) _ _
      rw [List.cons_append, cutAt_cons, if_neg (Bool.eq_false_iff.mp hhere),
        ih fun d hd => h d (List.mem_cons_of_mem _ hd), List.cons_append]

/-- Nor is it cut in front of a character that the mark does not hold, if it holds no mark up to
there. -/
theorem cutAt_append_cons {mark front : Text} {c : Char} (hc : c ∉ mark)
    (h : ¬ mark <:+: front) (rest : Text) :
    cutAt mark (front ++ c :: rest) = front ++ c :: cutAt mark rest := by
  have hhere {text : Text} (ht : ¬ mark <:+: text) :
      mark.isPrefixOf (text ++ c :: rest) = false := by
    rw [isPrefixOf_append (head_cons hc rest), Bool.eq_false_iff, Ne, List.isPrefixOf_iff_prefix]
    exact fun hprefix => ht hprefix.isInfix
  induction front with
  | nil =>
      have hcut := hhere h
      rw [List.nil_append] at hcut ⊢
      rw [cutAt_cons, hcut, if_neg Bool.false_ne_true, List.nil_append]
  | cons d front ih =>
      have hcut := hhere h
      rw [List.cons_append] at hcut
      rw [List.cons_append, cutAt_cons, hcut, if_neg Bool.false_ne_true,
        ih fun hin => h (hin.trans (List.suffix_cons d front).isInfix), List.cons_append]

theorem cutAt_isPrefix (mark text : Text) : cutAt mark text <+: text := by
  induction text with
  | nil => simp [cutAt_nil]
  | cons c rest ih =>
      rw [cutAt_cons]
      split
      · exact List.nil_prefix
      · exact List.cons_prefix_cons.mpr ⟨rfl, ih⟩

/-- What is left of two texts begins with what is left of the first, and goes on with a part of what
is left of the second, if no mark begins where they meet. -/
theorem exists_cutAt_append {mark tail : Text} (h : ∀ c ∈ tail.head?, c ∉ mark) (text : Text) :
    ∃ part, part <+: cutAt mark tail ∧ cutAt mark (text ++ tail) = cutAt mark text ++ part := by
  induction text with
  | nil =>
      refine ⟨cutAt mark tail, List.prefix_refl _, ?_⟩
      rw [List.nil_append, cutAt_nil, List.nil_append]
  | cons c text ih =>
      obtain ⟨part, hpart, hcut⟩ := ih
      have hhere : mark.isPrefixOf (c :: (text ++ tail)) = mark.isPrefixOf (c :: text) :=
        isPrefixOf_append h (c :: text)
      rw [List.cons_append, cutAt_cons, cutAt_cons, hhere]
      split
      · exact ⟨[], List.nil_prefix, rfl⟩
      · exact ⟨part, hpart, by rw [hcut, List.cons_append]⟩

/-- A text that holds the mark is cut inside of itself, whatever stands behind it. -/
theorem cutAt_append_isPrefix {mark text : Text} (h : mark <:+: text) (rest : Text) :
    cutAt mark (text ++ rest) <+: text := by
  induction text with
  | nil =>
      obtain rfl := List.infix_nil.mp h
      cases rest with
      | nil => simp [cutAt_nil]
      | cons c rest => simp [cutAt_cons]
  | cons c text ih =>
      rw [List.cons_append, cutAt_cons]
      split
      · exact List.nil_prefix
      · rename_i hhere
        rcases List.infix_cons_iff.mp h with hstart | hin
        · refine absurd (List.isPrefixOf_iff_prefix.mpr ?_) hhere
          exact hstart.trans (List.prefix_append _ _)
        · exact List.cons_prefix_cons.mpr ⟨rfl, ih hin⟩

theorem cutAt_mark {mark : Text} (hne : mark ≠ []) (rest : Text) :
    cutAt mark (mark ++ rest) = [] := by
  cases mark with
  | nil => exact absurd rfl hne
  | cons m mark =>
      rw [List.cons_append, cutAt_cons, if_pos]
      exact List.isPrefixOf_iff_prefix.mpr (List.prefix_append (m :: mark) rest)

/-- What is left of a text holds the mark no more. -/
theorem not_isInfix_cutAt {mark : Text} (hne : mark ≠ []) (text : Text) :
    ¬ mark <:+: cutAt mark text := by
  induction text with
  | nil =>
      rw [cutAt_nil, List.infix_nil]
      exact hne
  | cons c rest ih =>
      rw [cutAt_cons]
      split
      · rw [List.infix_nil]
        exact hne
      · rename_i hhere
        rw [List.infix_cons_iff, not_or]
        refine ⟨fun hprefix => hhere (List.isPrefixOf_iff_prefix.mpr ?_), ih⟩
        exact hprefix.trans (List.cons_prefix_cons.mpr ⟨rfl, cutAt_isPrefix mark rest⟩)

theorem cutAt_cutAt {mark : Text} (hne : mark ≠ []) (text : Text) :
    cutAt mark (cutAt mark text) = cutAt mark text :=
  cutAt_eq_self (not_isInfix_cutAt hne text)

/-- What is left of a text up to a mark without blanks, trimmed, does not depend on the blanks
around the text. -/
theorem trim_cutAt_trim {m : Char} {mark : Text} (h : ∀ c ∈ m :: mark, isBlank c = false)
    (text : Text) : trim (cutAt (m :: mark) (trim text)) = trim (cutAt (m :: mark) text) := by
  obtain ⟨front, back, htext, hfront, hback⟩ := eq_blanks_append_trim text
  have hm : ∀ c ∈ front, c ≠ m := fun c hc => ne_of_test (hfront c hc) (h m List.mem_cons_self)
  have hmark : ∀ c ∈ back.head?, c ∉ m :: mark := by
    intro c hc hmem
    have hblank := hback c (List.mem_of_mem_head? hc)
    rw [h c hmem] at hblank
    cases hblank
  obtain ⟨part, hpart, hcut⟩ := exists_cutAt_append hmark (trim text)
  have hblanks : ∀ c ∈ part, isBlank c = true :=
    fun c hc => hback c ((cutAt_isPrefix _ _).subset (hpart.subset hc))
  have hwhole : cutAt (m :: mark) text = front ++ (cutAt (m :: mark) (trim text) ++ part) := by
    conv_lhs => rw [htext, List.append_assoc]
    exact (cutAt_append hm _).trans (congrArg (front ++ ·) hcut)
  rw [hwhole, trim_append_left hfront, trim_append_right hblanks]

/-- The text behind a mark is found behind the first place where the mark stands. -/
theorem after?_append {mark : Char} {front : Text} (h : mark ∉ front) (rest : Text) :
    after? mark (front ++ mark :: rest) = some rest := by
  induction front with
  | nil => exact if_pos rfl
  | cons c front ih =>
      rw [List.mem_cons, not_or] at h
      rw [List.cons_append, after?, if_neg (Ne.symm h.1), ih h.2]

theorem after?_eq_none {mark : Char} {text : Text} (h : mark ∉ text) : after? mark text = none := by
  induction text with
  | nil => rfl
  | cons c rest ih =>
      rw [List.mem_cons, not_or] at h
      rw [after?, if_neg (Ne.symm h.1), ih h.2]

end LuaReference.Text
