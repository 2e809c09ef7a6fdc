import LuaReference.Proofs.Returns.Window
import LuaReference.Proofs.Source.WrittenCode

set_option autoImplicit false

/-! # Returns in string literals

The lines that are searched for a returned value keep their string literals. So a literal with a
`return` in it gives back a value, and a literal with the mark of a comment hides what the line
gives back behind it (`literals_decide_answer`). Emptying the literals of all lines shows what they
do (`afterLine_emptied`): which lines are searched does not depend on them, without comment marks in
them no returned value gets lost, and if none of them gives back a value, and none on the line of
the declaration holds the word `function`, none is made up.

A line is taken to pieces at its quotes. A quote is no part of a word and no blank, so what stands
in front of it gives back a value or what begins with it does (`givesBackBehind_ofLine`).
-/

namespace LuaReference

/-! ## Emptied lines -/

namespace Code.Piece

/-- The piece with nothing between the quotes of its literal. -/
def emptied : Piece → Piece
  | .char c => .char c
  | .literal quote _ => .literal quote []

/-- What stands between the quotes. -/
def body? : Piece → Option Text
  | .char _ => none
  | .literal _ body => some body

end Code.Piece

namespace CodeLine

/-- The line with nothing in its literals. -/
def emptied (line : CodeLine) : CodeLine := ⟨line.code.map Code.Piece.emptied, line.comment⟩

/-- What stands in the literals of the line. -/
def literals (line : CodeLine) : List Text := line.code.filterMap Code.Piece.body?

end CodeLine

/-! ## Texts with a quote -/

/-- The quotes that string literals stand in. -/
def IsQuote (c : Char) : Prop := c = '\'' ∨ c = '"'

namespace IsQuote

variable {quote : Char} (h : IsQuote quote)

include h

theorem isWord_eq_false : isWord quote = false := by
  rcases h with rfl | rfl <;> decide

theorem isBlank_eq_false : isBlank quote = false := by
  rcases h with rfl | rfl <;> decide

theorem not_mem_function : quote ∉ "function".toList := by
  rcases h with rfl | rfl <;> decide

theorem not_mem_commentMarker : quote ∉ commentMarker := by
  rcases h with rfl | rfl <;> decide

end IsQuote

/-- The code of a line with a quote begins with all that stands up to the quote. -/
theorem Code.ofLine_append_quote {quote : Char} (hq : IsQuote quote) {front : Text}
    (h : ¬ commentMarker <:+: front) (rest : Text) :
    ofLine (front ++ quote :: rest) = Text.skipBlanks front ++
      quote :: Text.dropTrailingBlanks (Text.cutAt commentMarker rest) := by
  rw [ofLine, Text.cutAt_append_cons hq.not_mem_commentMarker h,
    Text.trim_append_cons hq.isBlank_eq_false]

theorem Code.ofLine_quote {quote : Char} (hq : IsQuote quote) (rest : Text) :
    ofLine (quote :: rest) =
      quote :: Text.dropTrailingBlanks (Text.cutAt commentMarker rest) :=
  ofLine_append_quote hq (show ¬ commentMarker <:+: ([] : Text) by decide) rest

/-- Two lines that are the same but for some of their literals: the `bodies` stand in those of the
first, and nothing in those of the second. -/
inductive Empties : Text → Text → List Text → Prop
  | same (line : Text) : Empties line line []
  | literal {quote : Char} {front full emptied : Text} {bodies : List Text} (quoted : IsQuote quote)
      (unmarked : ¬ commentMarker <:+: front) (body : Text)
      (tail : Empties (quote :: full) (quote :: emptied) bodies) :
      Empties (front ++ quote :: (body ++ quote :: full)) (front ++ quote :: quote :: emptied)
        (body :: bodies)

/-- A written line and the emptied one, behind a text `front`. -/
theorem empties_pieces {pieces : List Code.Piece} (h : ∀ piece ∈ pieces, piece.IsWritten)
    {front : Text} (hmark : ¬ commentMarker <:+: front ++ pieces.flatMap Code.Piece.bare)
    (comment : Text) :
    Empties (front ++ (pieces.flatMap Code.Piece.text ++ comment))
      (front ++ ((pieces.map Code.Piece.emptied).flatMap Code.Piece.text ++ comment))
      (pieces.filterMap Code.Piece.body?) := by
  induction pieces generalizing front with
  | nil => exact .same _
  | cons piece pieces ih =>
      have hpieces : ∀ piece ∈ pieces, piece.IsWritten :=
        fun p hp => h p (List.mem_cons_of_mem _ hp)
      cases piece with
      | char c =>
          -- the character goes on with the text in front of the next literal
          have hmore : ¬ commentMarker <:+:
              (front ++ [c]) ++ pieces.flatMap Code.Piece.bare := by
            simpa [Code.Piece.bare] using hmark
          have hnext := ih hpieces hmore
          simpa [Code.Piece.text, Code.Piece.emptied, Code.Piece.body?, List.filterMap_cons]
            using hnext
      | literal quote body =>
          have hq : IsQuote quote := (h _ List.mem_cons_self).1
          have hbare : ¬ commentMarker <:+: pieces.flatMap Code.Piece.bare := fun hin =>
            hmark (hin.trans ⟨front ++ ['"', '"'], [], by simp [Code.Piece.bare]⟩)
          have hquote : ¬ commentMarker <:+: [quote] ++ pieces.flatMap Code.Piece.bare := by
            rwa [List.singleton_append, Text.isInfix_cons hq.not_mem_commentMarker (by decide)]
          have hfront : ¬ commentMarker <:+: front :=
            fun hin => hmark (hin.trans (List.prefix_append _ _).isInfix)
          have hnext := Empties.literal hq hfront body (ih hpieces hquote)
          simpa [Code.Piece.text, Code.Piece.emptied, Code.Piece.body?] using hnext

theorem CodeLine.IsWritten.empties {line : CodeLine} (h : line.IsWritten) :
    Empties line.text line.emptied.text line.literals :=
  empties_pieces h.pieces (show ¬ commentMarker <:+: [] ++ line.bare from h.no_mark) _

namespace Returns

/-! ## What stands on the two sides of a quote -/

/-- A piece of code that gives back a value behind the word `function`, which may have been `seen`
in front of the piece. -/
def GivesBackBehind (seen : Prop) (code : Text) : Prop :=
  ∃ front, GivesBackAt code front ∧ (seen ∨ "function".toList <:+: front)

theorem givesBackBehind_true (code : Text) : GivesBackBehind True code ↔ GivesBack code := by
  simp [GivesBackBehind, GivesBack]

theorem givesBackBehind_false (code : Text) :
    GivesBackBehind False code ↔ GivesBackInDeclaration code := by
  simp [GivesBackBehind, GivesBackInDeclaration]

theorem GivesBackBehind.givesBack {seen : Prop} {code : Text} (h : GivesBackBehind seen code) :
    GivesBack code :=
  h.imp fun _ hfront => hfront.1

theorem GivesBackBehind.mono {seen seen' : Prop} {code : Text} (hseen : seen → seen')
    (h : GivesBackBehind seen code) : GivesBackBehind seen' code :=
  h.imp fun _ hfront => ⟨hfront.1, hfront.2.imp_left hseen⟩

theorem not_givesBackBehind_nil (seen : Prop) : ¬ GivesBackBehind seen [] := by
  rintro ⟨front, ⟨⟨blank, behind, -, h⟩, -⟩, -⟩
  simp at h

/-- What gives back a value does so in front of more code, too. -/
theorem GivesBack.of_isPrefix {code more : Text} (h : GivesBack code) (hp : code <+: more) :
    GivesBack more := by
  obtain ⟨front, ⟨blank, behind, hblank, rfl⟩, hseparate⟩ := h
  obtain ⟨rest, rfl⟩ := hp
  exact ⟨front, ⟨blank, behind ++ rest, hblank, by simp⟩, hseparate⟩

/-- A blank in front of the code tells nothing. -/
theorem givesBackBehind_cons_blank {c : Char} (hc : isBlank c = true) (seen : Prop) (code : Text) :
    GivesBackBehind seen (c :: code) ↔ GivesBackBehind seen code := by
  have hfunction (front : Text) :
      "function".toList <:+: c :: front ↔ "function".toList <:+: front := by
    rw [List.infix_cons_iff, or_iff_right]
    rintro ⟨rest, hrest⟩
    obtain ⟨rfl, -⟩ : 'f' = c ∧ _ := List.cons.inj hrest
    exact absurd hc (by decide)
  constructor
  · rintro ⟨front, hgives, hseen⟩
    cases front with
    | nil =>
        obtain ⟨blank, behind, -, hcode⟩ := hgives.occurs
        obtain ⟨rfl, -⟩ : c = 'r' ∧ _ := List.cons.inj hcode
        exact absurd hc (by decide)
    | cons d front =>
        obtain ⟨rfl, -, hrest⟩ := givesBackAt_cons_cons.mp hgives
        exact ⟨front, hrest, hseen.imp_right (hfunction front).mp⟩
  · rintro ⟨front, hgives, hseen⟩
    have hword : front = [] → isWord c = false := fun _ => isWord_eq_false_of_isBlank hc
    exact ⟨c :: front, givesBackAt_cons_cons.mpr ⟨rfl, hword, hgives⟩,
      hseen.imp_right (hfunction front).mpr⟩

theorem givesBackBehind_skipBlanks (seen : Prop) (text rest : Text) :
    GivesBackBehind seen (Text.skipBlanks text ++ rest) ↔ GivesBackBehind seen (text ++ rest) := by
  obtain ⟨blanks, htext, hblanks⟩ := Text.eq_blanks_append_skipBlanks text
  conv_rhs => rw [htext, List.append_assoc]
  generalize Text.skipBlanks text ++ rest = code
  clear htext
  induction blanks with
  | nil => rfl
  | cons c blanks ih =>
      rw [List.cons_append, givesBackBehind_cons_blank (hblanks c List.mem_cons_self),
        ← ih fun d hd => hblanks d (List.mem_cons_of_mem _ hd)]

section Quote

variable {quote : Char} (hq : IsQuote quote)

include hq

theorem givesBackBehind_append_quote (seen : Prop) (front rest : Text) :
    GivesBackBehind seen (front ++ quote :: rest) ↔
      GivesBackBehind seen front ∨ GivesBackBehind (seen ∨ "function".toList <:+: front) rest := by
  simp only [GivesBackBehind, givesBackAt_append_cons hq.isWord_eq_false hq.isBlank_eq_false]
  constructor
  · rintro ⟨place, hfront | ⟨more, rfl, hrest⟩, hseen⟩
    · exact .inl ⟨place, hfront, hseen⟩
    · rw [Text.isInfix_append_cons hq.not_mem_function (by decide), ← or_assoc] at hseen
      exact .inr ⟨more, hrest, hseen⟩
  · rintro (⟨place, hfront, hseen⟩ | ⟨more, hrest, hseen⟩)
    · exact ⟨place, .inl hfront, hseen⟩
    · rw [or_assoc, ← Text.isInfix_append_cons hq.not_mem_function (by decide)] at hseen
      exact ⟨_, .inr ⟨more, rfl, hrest⟩, hseen⟩

theorem givesBackBehind_quote_cons (seen : Prop) (rest : Text) :
    GivesBackBehind seen (quote :: rest) ↔ GivesBackBehind seen rest := by
  have hfunction : ¬ "function".toList <:+: ([] : Text) := by decide
  have hsplit := givesBackBehind_append_quote hq seen [] rest
  simpa only [List.nil_append, not_givesBackBehind_nil, hfunction, or_false, false_or] using hsplit

/-- **A line gives back a value in front of a quote, or in what begins with the quote.** -/
theorem givesBackBehind_ofLine {front : Text} (h : ¬ commentMarker <:+: front) (seen : Prop)
    (rest : Text) :
    GivesBackBehind seen (Code.ofLine (front ++ quote :: rest)) ↔
      GivesBackBehind seen front ∨
        GivesBackBehind (seen ∨ "function".toList <:+: front) (Code.ofLine (quote :: rest)) := by
  rw [Code.ofLine_append_quote hq h, Code.ofLine_quote hq, givesBackBehind_skipBlanks,
    givesBackBehind_append_quote hq, givesBackBehind_quote_cons hq]

/-- A literal without the mark of a comment is asked for a value like any code. -/
theorem givesBackBehind_body {body : Text} (h : ¬ commentMarker <:+: body) (seen : Prop)
    (rest : Text) :
    GivesBackBehind seen (Code.ofLine (quote :: (body ++ quote :: rest))) ↔
      GivesBackBehind seen body ∨
        GivesBackBehind (seen ∨ "function".toList <:+: body) (Code.ofLine (quote :: rest)) := by
  have hmark : ¬ commentMarker <:+: quote :: body := by
    rwa [Text.isInfix_cons hq.not_mem_commentMarker (by decide)]
  rw [← List.cons_append, givesBackBehind_ofLine hq hmark, givesBackBehind_quote_cons hq,
    Text.isInfix_cons hq.not_mem_function (by decide)]

/-- An empty literal gives back nothing. -/
theorem givesBackBehind_nothing (seen : Prop) (rest : Text) :
    GivesBackBehind seen (Code.ofLine (quote :: quote :: rest)) ↔
      GivesBackBehind seen (Code.ofLine (quote :: rest)) := by
  have hfunction : ¬ "function".toList <:+: ([] : Text) := by decide
  have hempty := givesBackBehind_body hq (show ¬ commentMarker <:+: ([] : Text) by decide) seen rest
  simpa only [List.nil_append, not_givesBackBehind_nil, hfunction, or_false, false_or] using hempty

/-- Nothing is given back behind a literal with the mark of a comment. -/
theorem givesBack_of_marked {body : Text} (h : commentMarker <:+: body) {rest : Text}
    (hgives : GivesBack (Code.ofLine (quote :: (body ++ rest)))) : GivesBack body := by
  rw [Code.ofLine_quote hq, ← givesBackBehind_true, givesBackBehind_quote_cons hq,
    givesBackBehind_true] at hgives
  exact hgives.of_isPrefix
    ((Text.dropTrailingBlanks_isPrefix _).trans (Text.cutAt_append_isPrefix h rest))

/-- What a line with a quote opens is told in front of the quote, and it closes nothing. -/
theorem opens_append_quote {front : Text} (h : ¬ commentMarker <:+: front) (rest : Text) :
    opens (front ++ quote :: rest) = "function".toList.isPrefixOf (Text.skipBlanks front) ∧
      closes (front ++ quote :: rest) = false := by
  have hend : quote ∉ "end".toList := by rcases hq with rfl | rfl <;> decide
  rw [opens_eq, closes_eq, Code.ofLine_append_quote hq h]
  refine ⟨Text.isPrefixOf_append (Text.head_cons hq.not_mem_function _) _, decide_eq_false ?_⟩
  intro heq
  rw [← heq] at hend
  exact hend (by simp)

end Quote

/-! ## Lines beside their emptied forms -/

section Empties

variable {full emptied : Text} {bodies : List Text}

/-- Literals do not decide what a line opens and closes. -/
theorem opens_eq_of_empties (h : Empties full emptied bodies) :
    opens full = opens emptied ∧ closes full = closes emptied := by
  cases h with
  | same => exact ⟨rfl, rfl⟩
  | @literal quote front full emptied bodies hq hmark body =>
      obtain ⟨hopens, hcloses⟩ := opens_append_quote hq hmark (body ++ quote :: full)
      obtain ⟨hopens', hcloses'⟩ := opens_append_quote hq hmark (quote :: emptied)
      exact ⟨hopens.trans hopens'.symm, hcloses.trans hcloses'.symm⟩

/-- Without comment marks in the literals no value gets lost. -/
theorem givesBackBehind_full (h : Empties full emptied bodies)
    (hmarks : ∀ body ∈ bodies, ¬ commentMarker <:+: body) {seen : Prop}
    (hgives : GivesBackBehind seen (Code.ofLine emptied)) :
    GivesBackBehind seen (Code.ofLine full) := by
  induction h generalizing seen with
  | same => exact hgives
  | @literal quote front full emptied bodies hq hfront body _ ih =>
      obtain ⟨hbody, hbodies⟩ := List.forall_mem_cons.mp hmarks
      rw [givesBackBehind_ofLine hq hfront] at hgives ⊢
      refine hgives.imp_right fun hrest => ?_
      -- what the literal holds can only show the word `function` earlier
      rw [givesBackBehind_nothing hq] at hrest
      rw [givesBackBehind_body hq hbody]
      exact .inr ((ih hbodies hrest).mono .inl)

/-- If no literal gives back a value, none is made up. -/
theorem givesBackBehind_emptied (h : Empties full emptied bodies)
    (hnone : ∀ body ∈ bodies, ¬ GivesBack body) {seen : Prop}
    (hfunction : seen ∨ ∀ body ∈ bodies, ¬ "function".toList <:+: body)
    (hgives : GivesBackBehind seen (Code.ofLine full)) :
    GivesBackBehind seen (Code.ofLine emptied) := by
  induction h generalizing seen with
  | same => exact hgives
  | @literal quote front full emptied bodies hq hfront body _ ih =>
      obtain ⟨hbody, hbodies⟩ := List.forall_mem_cons.mp hnone
      rw [givesBackBehind_ofLine hq hfront] at hgives ⊢
      refine hgives.imp_right fun hrest => ?_
      rw [givesBackBehind_nothing hq]
      by_cases hmark : commentMarker <:+: body
      · -- the line is cut inside of the literal, which gives back nothing
        exact absurd (givesBack_of_marked hq hmark hrest.givesBack) hbody
      · rw [givesBackBehind_body hq hmark] at hrest
        have hrest := hrest.resolve_left fun hgives => hbody hgives.givesBack
        refine ih hbodies (hfunction.imp .inl fun hall b hb => hall b (List.mem_cons_of_mem _ hb))
          (hrest.mono ?_)
        -- the literal does not show the word for the first time
        rintro (hseen | hin)
        · exact hseen
        · exact .inl (hfunction.resolve_right fun hall => hall body List.mem_cons_self hin)

/-- Without comment marks in the literals, a line gives back a value exactly if its emptied form
does or one of the literals. -/
theorem givesBack_iff_of_empties (h : Empties full emptied bodies)
    (hmarks : ∀ body ∈ bodies, ¬ commentMarker <:+: body) :
    GivesBack (Code.ofLine full) ↔
      GivesBack (Code.ofLine emptied) ∨ ∃ body ∈ bodies, GivesBack body := by
  simp only [← givesBackBehind_true]
  induction h with
  | same => simp
  | @literal quote front full emptied bodies hq hfront body _ ih =>
      obtain ⟨hbody, hbodies⟩ := List.forall_mem_cons.mp hmarks
      rw [givesBackBehind_ofLine hq hfront, givesBackBehind_ofLine hq hfront,
        givesBackBehind_body hq hbody, givesBackBehind_nothing hq]
      simp only [true_or, ih hbodies, List.exists_mem_cons_iff, or_assoc]
      exact or_congr_right or_left_comm

end Empties

/-! ## Functions -/

/-- Lines that are opened and closed alike are searched alike. -/
theorem GivesBackWithin.map {α : Type} {text text' : α → Text} {lines : List α}
    (hsame : ∀ line ∈ lines, opens (text line) = opens (text' line) ∧
      closes (text line) = closes (text' line))
    (hgives : ∀ line ∈ lines, GivesBackOn (text line) → GivesBackOn (text' line)) {start : Int}
    (hstart : 0 < start) (h : GivesBackWithin start (lines.map text)) :
    GivesBackWithin start (lines.map text') := by
  induction lines generalizing start with
  | nil => exact h
  | cons line lines ih =>
      obtain ⟨⟨hopens, hcloses⟩, hrest⟩ := List.forall_mem_cons.mp hsame
      obtain ⟨hline, hlines⟩ := List.forall_mem_cons.mp hgives
      have hopen : openBehind start [text line] = openBehind start [text' line] := by
        simp only [openBehind, List.countP_singleton, hopens, hcloses]
      rw [List.map_cons, givesBackWithin_cons hstart, hopen] at h
      rw [List.map_cons, givesBackWithin_cons hstart]
      exact h.imp hline fun hmore => ⟨hmore.1, ih hrest hlines hmore.1 hmore.2⟩

/-- **What string literals do to the search for a returned value.** Which lines are searched does
not depend on them. A line without comment marks in its literals gives back a value exactly if it
does so with its literals emptied, or if one of the literals holds a `return` with a blank behind
it. So emptying all literals keeps the answer yes if none of them gives back a value and none on the
line of the declaration holds the word `function`, and keeps the answer no if none of them holds the
mark of a comment. -/
theorem afterLine_emptied {declaration : CodeLine} {rest : List CodeLine}
    (h : ∀ line ∈ declaration :: rest, line.IsWritten) :
    (∀ line ∈ rest, opens line.text = opens line.emptied.text ∧
      closes line.text = closes line.emptied.text) ∧
    (∀ line ∈ rest, (∀ literal ∈ line.literals, ¬ commentMarker <:+: literal) →
      (GivesBackOn line.text ↔
        GivesBackOn line.emptied.text ∨ ∃ literal ∈ line.literals, GivesBack literal)) ∧
    ((∀ line ∈ declaration :: rest, ∀ literal ∈ line.literals, ¬ GivesBack literal) →
      (∀ literal ∈ declaration.literals, ¬ "function".toList <:+: literal) →
      afterLine declaration.text (rest.map (·.text)) = true →
        afterLine declaration.emptied.text (rest.map (·.emptied.text)) = true) ∧
    ((∀ line ∈ declaration :: rest, ∀ literal ∈ line.literals, ¬ commentMarker <:+: literal) →
      afterLine declaration.emptied.text (rest.map (·.emptied.text)) = true →
        afterLine declaration.text (rest.map (·.text)) = true) := by
  have hline : ∀ line ∈ rest, Empties line.text line.emptied.text line.literals :=
    fun line hl => (h line (List.mem_cons_of_mem _ hl)).empties
  have hfirst := (h declaration List.mem_cons_self).empties
  have hsame : ∀ line ∈ rest, opens line.text = opens line.emptied.text ∧
      closes line.text = closes line.emptied.text :=
    fun line hl => opens_eq_of_empties (hline line hl)
  refine ⟨hsame, fun line hl hmarks => ?_, fun hnone hfunction hanswer => ?_,
    fun hmarks hanswer => ?_⟩
  · rw [givesBackOn_iff, givesBackOn_iff, givesBack_iff_of_empties (hline line hl) hmarks]
  · obtain ⟨hdeclaration, hrest⟩ := List.forall_mem_cons.mp hnone
    rw [afterLine_iff, ← givesBackBehind_false] at hanswer ⊢
    refine hanswer.imp (givesBackBehind_emptied hfirst hdeclaration (.inr hfunction))
      (GivesBackWithin.map hsame (fun line hl => ?_) Int.one_pos)
    rw [givesBackOn_iff, givesBackOn_iff, ← givesBackBehind_true, ← givesBackBehind_true]
    exact givesBackBehind_emptied (hline line hl) (hrest line hl) (.inl trivial)
  · obtain ⟨hdeclaration, hrest⟩ := List.forall_mem_cons.mp hmarks
    rw [afterLine_iff, ← givesBackBehind_false] at hanswer ⊢
    refine hanswer.imp (givesBackBehind_full hfirst hdeclaration)
      (GivesBackWithin.map (fun line hl => ⟨(hsame line hl).1.symm, (hsame line hl).2.symm⟩)
        (fun line hl => ?_) Int.one_pos)
    rw [givesBackOn_iff, givesBackOn_iff, ← givesBackBehind_true, ← givesBackBehind_true]
    exact givesBackBehind_full (hline line hl) (hrest line hl)

/-- A line with one literal. -/
def lineWithLiteral (front body back : Text) (comment : Option Text) : CodeLine :=
  ⟨front.map .char ++ .literal '"' body :: back.map .char, comment⟩

theorem isWritten_lineWithLiteral {front body back : Text}
    (h : ∀ c ∈ front ++ back, c ≠ '\'' ∧ c ≠ '"') (hbody : Code.IsLiteralBody '"' body)
    {comment : Option Text}
    (hmark : ¬ commentMarker <:+: (lineWithLiteral front body back comment).bare) :
    (lineWithLiteral front body back comment).IsWritten where
  pieces := by
    intro piece hp
    rw [lineWithLiteral, List.mem_append, List.mem_cons] at hp
    rcases hp with hp | rfl | hp
    · obtain ⟨c, hc, rfl⟩ := List.mem_map.mp hp
      exact h c (List.mem_append_left _ hc)
    · exact ⟨.inr rfl, hbody⟩
    · obtain ⟨c, hc, rfl⟩ := List.mem_map.mp hp
      exact h c (List.mem_append_right _ hc)
  no_mark := hmark

/-- A declaration with an escaped quote in its literal. -/
def greetLine : CodeLine :=
  lineWithLiteral "function greet(name) print(".toList "\\\"".toList ", name)".toList none

/-- A line that gives back a value, with a quote in its comment. -/
def greetingLine : CodeLine :=
  lineWithLiteral "  return ".toList "hi".toList " .. name ".toList (some " \"later".toList)

theorem greetLines_isWritten : ∀ line ∈ [greetLine, greetingLine], line.IsWritten := by
  intro line hl
  rcases List.mem_pair.mp hl with rfl | rfl
  · exact isWritten_lineWithLiteral (by decide) (.escape (by decide) .nil) (by decide +kernel)
  · exact isWritten_lineWithLiteral (by decide) (.of_plain (by decide)) (by decide +kernel)

theorem afterLine_greetLine :
    greetLine.text = "function greet(name) print(\"\\\"\", name)".toList ∧
      greetingLine.text = "  return \"hi\" .. name -- \"later".toList ∧
      (∀ line ∈ [greetLine, greetingLine], line.IsWritten) ∧
      (∀ line ∈ [greetLine, greetingLine], ∀ literal ∈ line.literals,
        ¬ commentMarker <:+: literal) ∧
      (∀ line ∈ [greetLine, greetingLine], ∀ literal ∈ line.literals, ¬ GivesBack literal) ∧
      (∀ literal ∈ greetLine.literals, ¬ "function".toList <:+: literal) ∧
      afterLine greetLine.emptied.text [greetingLine.emptied.text] = true ∧
      afterLine greetLine.text [greetingLine.text] = true := by
  have hmarks : ∀ line ∈ [greetLine, greetingLine], ∀ literal ∈ line.literals,
      ¬ commentMarker <:+: literal := by decide +kernel
  have hnone : ∀ line ∈ [greetLine, greetingLine], ∀ literal ∈ line.literals,
      ¬ GivesBack literal := by
    simp only [← returnsValue_iff]
    decide +kernel
  have hfunction : ∀ literal ∈ greetLine.literals, ¬ "function".toList <:+: literal := by
    decide +kernel
  obtain ⟨-, -, hempty, hfull⟩ := afterLine_emptied greetLines_isWritten
  have hanswer := hempty hnone hfunction (by decide +kernel)
  exact ⟨by decide +kernel, by decide +kernel, greetLines_isWritten, hmarks, hnone, hfunction,
    hanswer, hfull hmarks hanswer⟩

/-- A line with a `return` in its literal. -/
def pleaLine : CodeLine :=
  lineWithLiteral "  print(".toList "please return it".toList ")".toList none

/-- A line that gives back a value behind a literal with the mark of a comment. -/
def dashLine : CodeLine :=
  lineWithLiteral "  print(".toList "--".toList "); return 1".toList none

/-- A literal makes a value up, and another one hides a value. -/
theorem literals_decide_answer :
    pleaLine.IsWritten ∧ pleaLine.text = "  print(\"please return it\")".toList ∧
      afterLine "function f()".toList [pleaLine.text, "end".toList] = true ∧
      afterLine "function f()".toList [pleaLine.emptied.text, "end".toList] = false ∧
      dashLine.IsWritten ∧ dashLine.text = "  print(\"--\"); return 1".toList ∧
      afterLine "function f()".toList [dashLine.text, "end".toList] = false ∧
      afterLine "function f()".toList [dashLine.emptied.text, "end".toList] = true :=
  ⟨isWritten_lineWithLiteral (by decide) (.of_plain (by decide)) (by decide +kernel),
    by decide +kernel, by decide +kernel, by decide +kernel,
    isWritten_lineWithLiteral (by decide) (.of_plain (by decide)) (by decide +kernel),
    by decide +kernel, by decide +kernel, by decide +kernel⟩

end Returns

end LuaReference
