import LuaReference.Proofs.Text.Run
import LuaReference.Source.Code

set_option autoImplicit false

/-! # Written code

A line of code is written as pieces, which are characters outside of string literals and whole
literals, with an optional comment behind them. The reader counts the braces among the
characters and no others (`braceBalance_text`).

It empties the literals before it looks for the comment, so the two have to be told apart in one
pass: `emptyLiterals_pieces` empties the literals piece by piece and leaves the comment for later,
whatever quotes stand in it. Blanks around the line change nothing (`count_trim`).
-/

namespace LuaReference

namespace Code

/-- The code of a line does not depend on the blanks around the line. -/
theorem ofLine_trim (line : Text) : ofLine (Text.trim line) = ofLine line :=
  Text.trim_cutAt_trim (show ∀ c ∈ commentMarker, isBlank c = false by decide) line

/-- A line that is all comment has no code. -/
theorem ofLine_eq_nil {line : Text} (h : commentMarker <+: Text.trim line) :
    ofLine line = [] := by
  obtain ⟨comment, hline⟩ := h
  rw [← ofLine_trim, ← hline, ofLine, Text.cutAt_mark (by decide)]
  rfl

/-! ## Lines -/

/-- What may stand between the quotes of a string literal: neither the quote nor a backslash,
except behind a backslash. -/
inductive IsLiteralBody (quote : Char) : Text → Prop
  | nil : IsLiteralBody quote []
  | char {c : Char} {rest : Text} (plain : c ≠ quote ∧ c ≠ '\\')
      (tail : IsLiteralBody quote rest) : IsLiteralBody quote (c :: rest)
  | escape {c : Char} {rest : Text} (same_line : c ≠ '\n') (tail : IsLiteralBody quote rest) :
      IsLiteralBody quote ('\\' :: c :: rest)

/-- Characters that are neither the quote nor a backslash may stand in a literal. -/
theorem IsLiteralBody.of_plain {quote : Char} {body : Text}
    (h : ∀ c ∈ body, c ≠ quote ∧ c ≠ '\\') : IsLiteralBody quote body := by
  induction body with
  | nil => exact .nil
  | cons c body ih =>
      exact .char (h c List.mem_cons_self) (ih fun d hd => h d (List.mem_cons_of_mem _ hd))

/-- A piece of code. -/
inductive Piece where
  /-- A character outside of string literals. -/
  | char (c : Char)
  /-- A string literal between two quotes. -/
  | literal (quote : Char) (body : Text)

namespace Piece

/-- The piece as it is written. -/
def text : Piece → Text
  | .char c => [c]
  | .literal quote body => quote :: (body ++ [quote])

/-- The piece with nothing in its literal. -/
def bare : Piece → Text
  | .char c => [c]
  | .literal _ _ => ['"', '"']

/-- What makes a piece one that can be written. -/
def IsWritten : Piece → Prop
  | .char c => c ≠ '\'' ∧ c ≠ '"'
  | .literal quote body => (quote = '\'' ∨ quote = '"') ∧ IsLiteralBody quote body

end Piece

end Code

/-- A line of code with the comment behind it. -/
structure CodeLine where
  code : List Code.Piece
  comment : Option Text := none

namespace CodeLine

/-- A comment behind its mark; nothing for an absent one. -/
def commentPart : Option Text → Text
  | none => []
  | some comment => commentMarker ++ comment

/-- The line as it is written. -/
def text (line : CodeLine) : Text := line.code.flatMap Code.Piece.text ++ commentPart line.comment

/-- The code of the line with nothing in its literals. -/
def bare (line : CodeLine) : Text := line.code.flatMap Code.Piece.bare

/-- How many more braces the line opens than it closes, outside of literals and comments. -/
def balance (line : CodeLine) : Int := (line.bare.count '\x7b' : Int) - line.bare.count '\x7d'

/-- What makes a line one that can be written: the code holds no mark of a comment. -/
structure IsWritten (line : CodeLine) : Prop where
  pieces : ∀ piece ∈ line.code, piece.IsWritten
  no_mark : ¬ commentMarker <:+: line.bare

/-- A line without string literals. -/
def plain (code : Text) (comment : Option Text) : CodeLine := ⟨code.map .char, comment⟩

theorem bare_plain (code : Text) (comment : Option Text) : (plain code comment).bare = code := by
  induction code with
  | nil => rfl
  | cons c code ih => exact congrArg (c :: ·) ih

theorem isWritten_plain {code : Text} (h : ∀ c ∈ code, c ≠ '\'' ∧ c ≠ '"')
    (hmark : ¬ commentMarker <:+: code) (comment : Option Text) :
    (plain code comment).IsWritten where
  pieces := by
    intro piece hp
    obtain ⟨c, hc, rfl⟩ := List.mem_map.mp hp
    exact h c hc
  no_mark := by
    rw [bare_plain]
    exact hmark

end CodeLine

namespace Code

/-! ## Emptying literals -/

theorem literalLength?_quote {quote : Char} (hq : quote ≠ '\\') (rest : Text) :
    literalLength? quote (quote :: rest) = some 1 := by
  rw [literalLength?, if_pos rfl]
  intro c more heq
  exact absurd heq hq

/-- A literal is measured up to the quote that closes it. -/
theorem literalLength?_append {quote : Char} (hq : quote ≠ '\\') {body : Text}
    (h : IsLiteralBody quote body) (rest : Text) :
    literalLength? quote (body ++ quote :: rest) = some (body.length + 1) := by
  induction h with
  | nil => exact literalLength?_quote hq rest
  | @char c tail plain _ ih =>
      rw [List.cons_append, literalLength?, if_neg plain.1, if_neg plain.2, ih]
      · rfl
      · intro d more heq
        exact absurd heq plain.2
  | @escape c tail same_line _ ih =>
      rw [List.cons_append, List.cons_append, literalLength?, if_neg same_line, ih]
      rfl

theorem quotedLength_literal {quote : Char} (hq : quote = '\'' ∨ quote = '"') {body : Text}
    (h : IsLiteralBody quote body) (rest : Text) :
    quotedLength (quote :: (body ++ quote :: rest)) = body.length + 2 := by
  have hslash : quote ≠ '\\' := by rcases hq with rfl | rfl <;> decide
  rw [quotedLength, if_pos (by simpa using hq), literalLength?_append hslash h]
  rfl

/-- The characters of a literal that is emptied already are passed over. -/
theorem emptyLiteralsFrom_length (passed rest : Text) :
    emptyLiteralsFrom passed.length (passed ++ rest) = emptyLiterals rest := by
  induction passed with
  | nil => rfl
  | cons c passed ih => rw [List.length_cons, List.cons_append, emptyLiteralsFrom, ih]

/-- A character that begins no literal stays. -/
theorem emptyLiterals_cons_of_quotedLength {c : Char} {rest : Text}
    (h : quotedLength (c :: rest) = 0) : emptyLiterals (c :: rest) = c :: emptyLiterals rest := by
  rw [emptyLiterals, emptyLiteralsFrom]
  simp only [h, if_true, emptyLiterals]

theorem quotedLength_eq_zero {c : Char} (h : c ≠ '\'' ∧ c ≠ '"') (rest : Text) :
    quotedLength (c :: rest) = 0 := by
  rw [quotedLength, if_neg (by simpa using h)]

theorem emptyLiterals_cons {c : Char} (h : c ≠ '\'' ∧ c ≠ '"') (rest : Text) :
    emptyLiterals (c :: rest) = c :: emptyLiterals rest :=
  emptyLiterals_cons_of_quotedLength (quotedLength_eq_zero h rest)

theorem emptyLiterals_piece {piece : Piece} (h : piece.IsWritten) (rest : Text) :
    emptyLiterals (piece.text ++ rest) = piece.bare ++ emptyLiterals rest := by
  cases piece with
  | char c => exact emptyLiterals_cons h rest
  | literal quote body =>
      have htext : (Piece.literal quote body).text ++ rest = quote :: (body ++ quote :: rest) := by
        simp [Piece.text]
      -- two quotes stand for the opening one; the others of the literal are passed over
      have hpassed : body ++ quote :: rest = (body ++ [quote]) ++ rest := by simp
      have hlen : (body ++ [quote]).length = body.length + 1 := by simp
      rw [htext, emptyLiterals, emptyLiteralsFrom]
      simp only [quotedLength_literal h.1 h.2]
      rw [if_neg (by omega), show body.length + 2 - 1 = (body ++ [quote]).length by omega, hpassed,
        emptyLiteralsFrom_length]
      rfl

/-- Emptying the literals goes piece by piece. -/
theorem emptyLiterals_pieces {pieces : List Piece} (h : ∀ piece ∈ pieces, piece.IsWritten)
    (rest : Text) :
    emptyLiterals (pieces.flatMap Piece.text ++ rest) =
      pieces.flatMap Piece.bare ++ emptyLiterals rest := by
  induction pieces with
  | nil => rfl
  | cons piece more ih =>
      rw [List.flatMap_cons, List.flatMap_cons, List.append_assoc, List.append_assoc,
        emptyLiterals_piece (h piece (by simp)), ih fun p hp => h p (List.mem_cons_of_mem _ hp)]

/-! ## Braces -/

/-- Braces are counted in front of the first mark of a comment, once the literals are empty. -/
theorem braceBalance_eq (text : Text) :
    braceBalance text =
      ((Text.cutAt commentMarker (emptyLiterals text)).count '\x7b' : Int) -
        (Text.cutAt commentMarker (emptyLiterals text)).count '\x7d' := by
  have hcount : ∀ c : Char, isBlank c = false → (ofLine (emptyLiterals text)).count c =
      (Text.cutAt commentMarker (emptyLiterals text)).count c :=
    fun c hc => Text.count_trim hc _
  rw [← hcount _ (by decide), ← hcount _ (by decide)]
  rfl

/-- A comment behind a text takes no character of the text away but a hyphen: behind a hyphen
the mark of the comment begins one place earlier. -/
theorem count_cutAt_comment {c : Char} (hc : c ≠ '-') {text : Text}
    (h : ¬ commentMarker <:+: text) (comment : Text) :
    (Text.cutAt commentMarker (text ++ (commentMarker ++ comment))).count c = text.count c := by
  induction text with
  | nil => rw [List.nil_append, Text.cutAt_mark (by decide)]
  | cons d rest ih =>
      have hrest : ¬ commentMarker <:+: rest :=
        fun hin => h (hin.trans (List.suffix_cons d rest).isInfix)
      rw [List.cons_append, Text.cutAt_cons]
      split
      · rename_i hmark
        obtain ⟨more, heq⟩ := List.isPrefixOf_iff_prefix.mp hmark
        obtain ⟨rfl, htail⟩ : '-' = d ∧ _ := List.cons.inj heq
        cases rest with
        | nil =>
            -- the last character is a hyphen and the first of the mark
            have hd : ¬ '-' = c := fun heq => hc heq.symm
            simp [hd]
        | cons e rest =>
            -- the text itself would hold a mark
            obtain ⟨rfl, -⟩ : '-' = e ∧ _ := List.cons.inj htail
            exact absurd (List.prefix_append commentMarker rest).isInfix h
      · rw [List.count_cons, List.count_cons, ih hrest]

/-- **The braces of a written line are counted outside of its literals and its comment.** -/
theorem braceBalance_text {line : CodeLine} (h : line.IsWritten) :
    braceBalance line.text = line.balance := by
  have hcount : ∀ c : Char, c ≠ '-' →
      (Text.cutAt commentMarker (emptyLiterals line.text)).count c = line.bare.count c := by
    intro c hc
    rw [CodeLine.text, emptyLiterals_pieces h.pieces]
    cases line.comment with
    | none =>
        have hnil : line.bare ++ emptyLiterals (CodeLine.commentPart none) = line.bare := by
          exact List.append_nil _
        show (Text.cutAt commentMarker (line.bare ++ _)).count c = _
        rw [hnil, Text.cutAt_eq_self h.no_mark]
    | some comment =>
        have hmark : emptyLiterals (CodeLine.commentPart (some comment)) =
            commentMarker ++ emptyLiterals comment := by
          show emptyLiterals ('-' :: '-' :: comment) = _
          rw [emptyLiterals_cons (by decide), emptyLiterals_cons (by decide)]
          rfl
        show (Text.cutAt commentMarker (line.bare ++ _)).count c = _
        rw [hmark, count_cutAt_comment hc h.no_mark]
  rw [braceBalance_eq, hcount _ (by decide), hcount _ (by decide), CodeLine.balance]

/-- A character that is no quote, no hyphen and no brace. -/
def IsPlain (c : Char) : Prop := c ∉ ['\'', '"', '-', '\x7b', '\x7d']

/-- Plain characters in front of a line leave its balance as it is. -/
theorem braceBalance_append {front : Text} (h : ∀ c ∈ front, IsPlain c) (text : Text) :
    braceBalance (front ++ text) = braceBalance text := by
  have hempty : emptyLiterals (front ++ text) = front ++ emptyLiterals text := by
    induction front with
    | nil => rfl
    | cons c front ih =>
        have hc : c ≠ '\'' ∧ c ≠ '"' := by
          have := h c (by simp)
          simp only [IsPlain, List.mem_cons, not_or] at this
          exact ⟨this.1, this.2.1⟩
        rw [List.cons_append, emptyLiterals_cons hc, ih fun d hd => h d (List.mem_cons_of_mem _ hd)]
        rfl
  have hcount : ∀ d ∈ ['\'', '"', '-', '\x7b', '\x7d'], front.count d = 0 :=
    fun d hd => List.count_eq_zero.mpr fun hmem => h d hmem hd
  have hdash : ∀ c ∈ front, c ≠ '-' := by
    rintro c hc rfl
    exact h _ hc (by decide)
  rw [braceBalance_eq, braceBalance_eq, hempty]
  rw [show commentMarker = '-' :: ['-'] from rfl, Text.cutAt_append hdash, List.count_append,
    List.count_append, hcount _ (by decide), hcount _ (by decide), Nat.zero_add, Nat.zero_add]

/-- A comment opens and closes nothing. -/
theorem braceBalance_comment {line : Text} (h : commentMarker <+: line) :
    braceBalance line = 0 := by
  obtain ⟨comment, rfl⟩ := h
  have hline : (CodeLine.plain [] (some comment)).IsWritten :=
    CodeLine.isWritten_plain (by simp) (by decide) _
  have htext : (CodeLine.plain [] (some comment)).text = commentMarker ++ comment := rfl
  have hzero : (CodeLine.plain [] (some comment)).balance = 0 := rfl
  rw [← htext, braceBalance_text hline, hzero]

/-! ## The opening brace -/

/-- There is a text behind the brace of exactly those lines that have a brace. -/
theorem isSome_afterBrace? (line : Text) : (afterBrace? line).isSome ↔ '\x7b' ∈ line := by
  rw [afterBrace?, Option.isSome_map]
  constructor
  · intro hsome
    by_contra hbrace
    rw [Text.after?_eq_none hbrace] at hsome
    cases hsome
  · intro hbrace
    obtain ⟨front, behind, rfl, hfront⟩ := List.eq_append_cons_of_mem hbrace
    rw [Text.after?_append hfront]
    rfl

theorem afterBrace?_eq_none_iff {line : Text} : afterBrace? line = none ↔ '\x7b' ∉ line := by
  rw [← Option.not_isSome_iff_eq_none, isSome_afterBrace?]

theorem mem_of_afterBrace? {line text : Text} (h : afterBrace? line = some text) :
    '\x7b' ∈ line :=
  (isSome_afterBrace? line).mp (Option.isSome_of_eq_some h)

/-- The text behind the brace does not depend on the blanks around the line. -/
theorem afterBrace?_trim (line : Text) : afterBrace? (Text.trim line) = afterBrace? line := by
  by_cases hbrace : '\x7b' ∈ line
  · obtain ⟨front, behind, rfl, hfront⟩ := List.eq_append_cons_of_mem hbrace
    have hskip : '\x7b' ∉ Text.skipBlanks front :=
      fun hmem => hfront ((List.dropWhile_suffix _).subset hmem)
    rw [Text.trim_append_cons (by decide), afterBrace?, afterBrace?, Text.after?_append hskip,
      Text.after?_append hfront, Option.map_some, Option.map_some, Text.trim_dropTrailingBlanks]
  · have htrim : '\x7b' ∉ Text.trim line := fun hmem => hbrace ((Text.trim_isInfix line).subset hmem)
    rw [afterBrace?_eq_none_iff.mpr hbrace, afterBrace?_eq_none_iff.mpr htrim]

end Code

end LuaReference
