import LuaReference.Proofs.Text.Run
import LuaReference.Text.Lines

set_option autoImplicit false

/-! # The lines of a written text

A line without line breaks that is closed by a line feed is read back as a line
(`lines_append_lineFeed`), and so are any number of such lines joined by line feeds
(`lines_join`). Behind a line feed a text goes on with lines of its own (`lines_append`). Which
break it is that closes a line does not matter (`lines_unifyBreaks`).
-/

namespace LuaReference.Text

/-- A text without line breaks. -/
def OneLine (text : Text) : Prop := ∀ c ∈ text, isLineBreak c = false

instance (text : Text) : Decidable (OneLine text) :=
  inferInstanceAs (Decidable (∀ c ∈ text, isLineBreak c = false))

theorem OneLine.tail {c : Char} {rest : Text} (h : OneLine (c :: rest)) : OneLine rest :=
  fun d hd => h d (List.mem_cons_of_mem _ hd)

theorem OneLine.append {first second : Text} (h : OneLine first) (h' : OneLine second) :
    OneLine (first ++ second) := by
  intro c hc
  rcases List.mem_append.mp hc with hc | hc
  · exact h c hc
  · exact h' c hc

theorem OneLine.cons {c : Char} (hc : isLineBreak c = false) {rest : Text} (h : OneLine rest) :
    OneLine (c :: rest) := by
  intro d hd
  rcases List.mem_cons.mp hd with rfl | hd
  · exact hc
  · exact h d hd

theorem OneLine.join {separator : Text} (hs : OneLine separator) {parts : List Text}
    (h : ∀ part ∈ parts, OneLine part) : OneLine (join separator parts) := by
  induction parts with
  | nil => exact fun c hc => absurd hc List.not_mem_nil
  | cons part rest ih =>
      cases rest with
      | nil => exact h part (by simp)
      | cons next rest =>
          have hrest := ih fun p hp => h p (List.mem_cons_of_mem _ hp)
          exact ((h part (by simp)).append hs).append hrest

/-- A line holds no line feed. -/
theorem OneLine.ne_lineFeed {text : Text} (h : OneLine text) {c : Char} (hc : c ∈ text) :
    c ≠ '\n' := by
  rintro rfl
  exact absurd (h '\n' hc) (by decide)

/-- Every line break is a blank. -/
theorem isBlank_of_isLineBreak {c : Char} (h : isLineBreak c = true) : isBlank c = true := by
  have hall : ∀ c ∈ ['\n', '\r', '\x0b', '\x0c', '\x1c', '\x1d', '\x1e', '\u0085', '\u2028',
      '\u2029'], isBlank c = true := by decide
  exact hall c (List.contains_iff_mem.mp h)

theorem IsWord.oneLine {word : Text} (h : IsWord word) : OneLine word := by
  intro c hc
  by_contra hb
  have hblank : isBlank c = true := isBlank_of_isLineBreak (by simpa using hb)
  rw [isBlank_eq_false_of_isWord (h.chars c hc)] at hblank
  cases hblank

/-- A character that ends no line goes to the front of the line behind it. -/
theorem lines_cons {c : Char} (h : isLineBreak c = false) (rest : Text) :
    lines (c :: rest) =
      match lines rest with
      | [] => [[c]]
      | line :: more => (c :: line) :: more := by
  have hr : c ≠ '\r' := by
    rintro rfl
    exact absurd h (by decide)
  rw [lines, h]
  · rfl
  · intro _ hc _
    exact hr hc

theorem lines_lineFeed (rest : Text) : lines ('\n' :: rest) = [] :: lines rest := by
  simp [lines, isLineBreak]

/-- A line feed closes the line in front of it. -/
theorem lines_append_lineFeed {line : Text} (h : OneLine line) (rest : Text) :
    lines (line ++ '\n' :: rest) = line :: lines rest := by
  induction line with
  | nil => exact lines_lineFeed rest
  | cons c line ih =>
      rw [List.cons_append, lines_cons (h c (by simp)), ih h.tail]

/-- A text without line breaks is its own only line, unless it is empty. -/
theorem lines_oneLine {line : Text} (h : OneLine line) (hne : line ≠ []) :
    lines line = [line] := by
  induction line with
  | nil => exact absurd rfl hne
  | cons c line ih =>
      rw [lines_cons (h c (by simp))]
      cases line with
      | nil => rfl
      | cons d line => rw [ih h.tail (by simp)]

/-- Lines joined by line feeds are read back, unless the last one is empty. -/
theorem lines_join {ls : List Text} (h : ∀ line ∈ ls, OneLine line)
    (hlast : ls.getLast? ≠ some []) : lines (join ['\n'] ls) = ls := by
  induction ls with
  | nil => rfl
  | cons line more ih =>
      cases more with
      | nil =>
          have hne : line ≠ [] := by
            rintro rfl
            exact hlast rfl
          exact lines_oneLine (h line (by simp)) hne
      | cons next more =>
          -- the line feed that joins the lines closes the first of them
          have hjoin : join ['\n'] (line :: next :: more) =
              line ++ '\n' :: join ['\n'] (next :: more) := by
            rw [join, List.append_assoc]
            · rfl
            · simp
          rw [hjoin, lines_append_lineFeed (h line (by simp)),
            ih (fun l hl => h l (List.mem_cons_of_mem _ hl)) (by simpa using hlast)]

/-- A line break that makes no pair with a line feed behind it closes an empty line. -/
theorem lines_lineBreak {c : Char} (h : isLineBreak c = true) {rest : Text}
    (hpair : ∀ more, c = '\r' → rest ≠ '\n' :: more) : lines (c :: rest) = [] :: lines rest := by
  rw [lines, if_pos h]
  rintro more hc rfl
  exact hpair more hc rfl

/-- Only the empty text has no lines. -/
theorem eq_nil_of_lines {text : Text} (h : lines text = []) : text = [] := by
  cases text using lines.fun_cases with
  | case1 => rfl
  | case2 rest => cases h
  | case3 c rest hpair hbreak =>
      rw [lines_lineBreak hbreak fun more hc hr => hpair more hc hr] at h
      cases h
  | case4 c rest hpair hbreak hlines =>
      rw [lines_cons (Bool.eq_false_iff.mpr hbreak), hlines] at h
      cases h
  | case5 c rest hpair hbreak line more hlines =>
      rw [lines_cons (Bool.eq_false_iff.mpr hbreak), hlines] at h
      cases h

/-- A text that is empty or ends in a line feed is read as its own lines, whatever comes behind
it. -/
theorem lines_append {first : Text} (h : ∀ c ∈ first.getLast?, c = '\n') (second : Text) :
    lines (first ++ second) = lines first ++ lines second := by
  have htail {c : Char} {rest : Text} (h : ∀ d ∈ (c :: rest).getLast?, d = '\n') :
      ∀ d ∈ rest.getLast?, d = '\n' := by
    cases rest with
    | nil => simp
    | cons d rest => simpa using h
  induction first using lines.induct with
  | case1 => rfl
  | case2 rest ih => exact congrArg ([] :: ·) (ih (htail (htail h)))
  | case3 c rest hpair hbreak ih =>
      rw [lines_lineBreak hbreak fun more hc hr => hpair more hc hr, List.cons_append,
        lines_lineBreak hbreak, ih (htail h)]
      · rfl
      · intro more hc hmore
        cases rest with
        | nil =>
            -- a carriage return is no line feed, so it is not the end of the text
            have hlast := h c (by simp)
            rw [hc] at hlast
            cases hlast
        | cons d rest =>
            obtain ⟨rfl, -⟩ := List.cons.inj hmore
            exact hpair rest hc rfl
  | case4 c rest hpair hbreak hnone ih =>
      -- then the character is the last one, but it ends no line
      obtain rfl := eq_nil_of_lines hnone
      have hlast := h c (by simp)
      rw [hlast] at hbreak
      exact absurd (by decide) hbreak
  | case5 c rest hpair hbreak line more hlines ih =>
      have hc : isLineBreak c = false := Bool.eq_false_iff.mpr hbreak
      rw [List.cons_append, lines_cons hc, lines_cons hc, ih (htail h), hlines]
      rfl

/-- Two line feeds behind a text close what is open and add one or two empty lines: a carriage
return at the end of the text takes the first line feed along. -/
theorem lines_append_lineFeeds (text : Text) :
    ∃ n, lines (text ++ "\n\n".toList) = lines text ++ List.replicate (n + 1) [] := by
  induction text using lines.induct with
  | case1 => exact ⟨1, rfl⟩
  | case2 rest ih =>
      obtain ⟨n, hn⟩ := ih
      exact ⟨n, congrArg ([] :: ·) hn⟩
  | case3 c rest hpair hbreak ih =>
      have hpair' : ∀ more, c = '\r' → rest ≠ '\n' :: more := fun more hc hr => hpair more hc hr
      rw [lines_lineBreak hbreak hpair']
      by_cases hlast : c = '\r' ∧ rest = []
      · obtain ⟨rfl, rfl⟩ := hlast
        exact ⟨0, rfl⟩
      · obtain ⟨n, hn⟩ := ih
        refine ⟨n, ?_⟩
        rw [List.cons_append, lines_lineBreak hbreak, hn, List.cons_append]
        intro more hc hmore
        cases rest with
        | nil => exact hlast ⟨hc, rfl⟩
        | cons d rest =>
            obtain ⟨rfl, -⟩ := List.cons.inj hmore
            exact hpair' rest hc rfl
  | case4 c rest hpair hbreak hnone ih =>
      obtain rfl := eq_nil_of_lines hnone
      have hc : isLineBreak c = false := Bool.eq_false_iff.mpr hbreak
      refine ⟨0, ?_⟩
      rw [List.cons_append, lines_cons hc, lines_cons hc]
      rfl
  | case5 c rest hpair hbreak line more hlines ih =>
      have hc : isLineBreak c = false := Bool.eq_false_iff.mpr hbreak
      obtain ⟨n, hn⟩ := ih
      refine ⟨n, ?_⟩
      rw [List.cons_append, lines_cons hc, lines_cons hc, hn, hlines]
      rfl

/-! ## Unified line breaks -/

theorem unifyBreaks_cons {c : Char} {rest : Text}
    (hpair : ∀ more, c = '\r' → rest = '\n' :: more → False) :
    unifyBreaks (c :: rest) = (if c = '\r' then '\n' else c) :: unifyBreaks rest := by
  rw [unifyBreaks]
  exact hpair

theorem unifyBreaks_cons_of_not_isLineBreak {c : Char} (h : isLineBreak c = false) (rest : Text) :
    unifyBreaks (c :: rest) = c :: unifyBreaks rest := by
  have hc : c ≠ '\r' := by
    rintro rfl
    exact absurd h (by decide)
  rw [unifyBreaks_cons fun _ hr => absurd hr hc, if_neg hc]

/-- Unified line breaks close the same lines as the breaks they stand for. -/
theorem lines_unifyBreaks (text : Text) : lines (unifyBreaks text) = lines text := by
  -- as lines are read: a pair of breaks, another break, a character of the last line or of one
  -- that further lines follow
  induction text using lines.induct with
  | case1 => rfl
  | case2 rest ih =>
      rw [unifyBreaks, lines_lineFeed, ih]
      rfl
  | case3 c rest hpair hbreak ih =>
      rw [unifyBreaks_cons hpair, lines_lineBreak hbreak fun more hc hr => hpair more hc hr]
      by_cases hc : c = '\r'
      · rw [if_pos hc, lines_lineFeed, ih]
      · rw [if_neg hc, lines_lineBreak hbreak fun _ hr => absurd hr hc, ih]
  | case4 c rest hpair hbreak hnone ih =>
      rw [unifyBreaks_cons_of_not_isLineBreak (Bool.eq_false_iff.mpr hbreak),
        lines_cons (Bool.eq_false_iff.mpr hbreak), lines_cons (Bool.eq_false_iff.mpr hbreak), ih]
  | case5 c rest hpair hbreak line more hlines ih =>
      rw [unifyBreaks_cons_of_not_isLineBreak (Bool.eq_false_iff.mpr hbreak),
        lines_cons (Bool.eq_false_iff.mpr hbreak), lines_cons (Bool.eq_false_iff.mpr hbreak), ih]

end LuaReference.Text
