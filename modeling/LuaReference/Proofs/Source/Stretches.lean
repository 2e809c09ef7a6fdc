import LuaReference.Proofs.Source.WrittenCode
import Mathlib.Data.List.Infix

set_option autoImplicit false

/-! # Braces in stretches of code

A line of code is a row of stretches, text without quotes and whole string literals, with an
optional comment behind them. Its braces are counted in the text alone (`braceBalance_stretches`):
what stands in the literals and in the comment does not count, be it braces, quotes or the mark of
a comment.

The text must not hold the mark of a comment, neither in one stretch nor across stretches that meet
(`Unmarked`). A literal keeps the hyphens on its two sides apart, and so do the two quotes that are
left of it when it is emptied (`unmarked_iff`).
-/

namespace LuaReference

namespace Code

/-- A stretch of a line of code. -/
inductive Stretch where
  /-- Text outside of string literals. -/
  | code (text : Text)
  /-- A string literal between two quotes. -/
  | literal (quote : Char) (body : Text)

namespace Stretch

/-- The stretch as it is written. -/
def text : Stretch → Text
  | .code text => text
  | .literal quote body => quote :: (body ++ [quote])

/-- The code in the stretch; a literal holds none. -/
def codeText : Stretch → Text
  | .code text => text
  | .literal _ _ => []

/-- Whether the stretch is code. -/
def isCode : Stretch → Bool
  | .code _ => true
  | .literal _ _ => false

/-- The characters and the literals of the stretch. -/
def pieces : Stretch → List Piece
  | .code text => text.map .char
  | .literal quote body => [.literal quote body]

/-- The stretch with nothing in its literal. -/
def bare (stretch : Stretch) : Text := stretch.pieces.flatMap Piece.bare

/-- What makes a stretch one that can be written. -/
def IsWritten : Stretch → Prop
  | .code text => ∀ c ∈ text, c ≠ '\'' ∧ c ≠ '"'
  | .literal quote body => (quote = '\'' ∨ quote = '"') ∧ IsLiteralBody quote body

theorem text_pieces (stretch : Stretch) : stretch.pieces.flatMap Piece.text = stretch.text := by
  cases stretch with
  | code text => simp [pieces, Stretch.text, Piece.text, List.flatMap_map]
  | literal quote body => simp [pieces, Stretch.text, Piece.text]

theorem bare_code (text : Text) : (Stretch.code text).bare = text :=
  CodeLine.bare_plain text none

theorem bare_literal (quote : Char) (body : Text) :
    (Stretch.literal quote body).bare = ['"', '"'] := rfl

theorem bare_eq_text {stretch : Stretch} (h : stretch.isCode = true) :
    stretch.bare = stretch.text := by
  cases stretch with
  | code text => exact bare_code text
  | literal quote body => cases h

/-- Emptying the literal adds nothing to the code but quotes. -/
theorem count_bare {c : Char} (hc : c ≠ '"') (stretch : Stretch) :
    stretch.bare.count c = stretch.codeText.count c := by
  cases stretch with
  | code text => rw [bare_code, codeText]
  | literal quote body =>
      rw [bare_literal, codeText, List.count_eq_zero.mpr (by simpa using hc), List.count_nil]

theorem IsWritten.pieces {stretch : Stretch} (h : stretch.IsWritten) :
    ∀ piece ∈ stretch.pieces, piece.IsWritten := by
  intro piece hpiece
  cases stretch with
  | code text =>
      obtain ⟨c, hc, rfl⟩ := List.mem_map.mp hpiece
      exact h c hc
  | literal quote body =>
      obtain rfl := List.mem_singleton.mp hpiece
      exact h

end Stretch

/-! ## Marks of comments -/

/-- The code holds no mark of a comment, neither in one stretch nor across stretches that meet. -/
def Unmarked (stretches : List Stretch) : Prop :=
  ∀ run, run <:+: stretches → (∀ stretch ∈ run, stretch.isCode = true) →
    ¬ commentMarker <:+: run.flatMap Stretch.text

theorem Unmarked.tail {stretch : Stretch} {rest : List Stretch}
    (h : Unmarked (stretch :: rest)) : Unmarked rest :=
  fun run hrun => h run (hrun.trans (List.suffix_cons stretch rest).isInfix)

/-- The emptied literals make no mark, and none arises behind a text `front` that makes none with
the code it meets. -/
theorem not_isInfix_bare {stretches : List Stretch} (h : Unmarked stretches) {front : Text}
    (hfront : ∀ run, run <+: stretches → (∀ stretch ∈ run, stretch.isCode = true) →
      ¬ commentMarker <:+: front ++ run.flatMap Stretch.text) :
    ¬ commentMarker <:+: front ++ stretches.flatMap Stretch.bare := by
  induction stretches generalizing front with
  | nil => exact hfront [] List.nil_prefix (by simp)
  | cons stretch rest ih =>
      cases stretch with
      | code text =>
          -- the code goes on with the text in front of it
          have hmore : ∀ run, run <+: rest → (∀ stretch ∈ run, stretch.isCode = true) →
              ¬ commentMarker <:+: (front ++ text) ++ run.flatMap Stretch.text := by
            intro run hrun hcode
            have hwhole := hfront (.code text :: run) (List.cons_prefix_cons.mpr ⟨rfl, hrun⟩)
              (List.forall_mem_cons.mpr ⟨rfl, hcode⟩)
            rwa [List.flatMap_cons, ← List.append_assoc] at hwhole
          rw [List.flatMap_cons, Stretch.bare_code, ← List.append_assoc]
          exact ih h.tail hmore
      | literal quote body =>
          have hbehind : ¬ commentMarker <:+: [] ++ rest.flatMap Stretch.bare :=
            ih h.tail fun run hrun => h.tail run hrun.isInfix
          have hbefore : ¬ commentMarker <:+: front := by
            simpa using hfront [] List.nil_prefix (by simp)
          show ¬ commentMarker <:+: front ++ '"' :: ('"' :: rest.flatMap Stretch.bare)
          rw [Text.isInfix_append_cons (by decide) (by decide),
            Text.isInfix_cons (by decide) (by decide)]
          exact not_or.mpr ⟨hbefore, hbehind⟩

/-- The code holds no mark of a comment exactly if the line with its literals emptied holds none. -/
theorem unmarked_iff {stretches : List Stretch} :
    Unmarked stretches ↔ ¬ commentMarker <:+: stretches.flatMap Stretch.bare := by
  constructor
  · intro h
    have hnothing : ¬ commentMarker <:+: [] ++ stretches.flatMap Stretch.bare :=
      not_isInfix_bare h fun run hrun => h run hrun.isInfix
    rwa [List.nil_append] at hnothing
  · intro h run hrun hcode hmark
    have hbare : run.flatMap Stretch.bare = run.flatMap Stretch.text :=
      List.flatMap_congr fun stretch hmem => Stretch.bare_eq_text (hcode stretch hmem)
    rw [← hbare] at hmark
    exact h (hmark.trans (List.IsInfix.flatMap hrun Stretch.bare))

instance (stretches : List Stretch) : Decidable (Unmarked stretches) :=
  decidable_of_iff _ unmarked_iff.symm

end Code

/-! ## Lines -/

namespace CodeLine

open Code (Stretch Unmarked)

/-- The line of some stretches with a comment behind them. -/
def ofStretches (stretches : List Stretch) (comment : Option Text) : CodeLine :=
  ⟨stretches.flatMap Stretch.pieces, comment⟩

variable (stretches : List Stretch) (comment : Option Text)

theorem text_ofStretches : (ofStretches stretches comment).text =
    stretches.flatMap Stretch.text ++ commentPart comment := by
  rw [CodeLine.text, ofStretches, List.flatMap_assoc]
  simp only [Stretch.text_pieces]

theorem bare_ofStretches :
    (ofStretches stretches comment).bare = stretches.flatMap Stretch.bare := by
  rw [CodeLine.bare, ofStretches, List.flatMap_assoc]
  rfl

theorem count_bare_ofStretches {c : Char} (hc : c ≠ '"') :
    (ofStretches stretches comment).bare.count c =
      (stretches.flatMap Stretch.codeText).count c := by
  rw [bare_ofStretches]
  induction stretches with
  | nil => rfl
  | cons stretch rest ih =>
      rw [List.flatMap_cons, List.flatMap_cons, List.count_append, List.count_append, ih,
        Stretch.count_bare hc]

variable {stretches}

theorem isWritten_ofStretches (hwritten : ∀ stretch ∈ stretches, stretch.IsWritten)
    (hmarks : Unmarked stretches) : (ofStretches stretches comment).IsWritten where
  pieces := by
    intro piece hpiece
    obtain ⟨stretch, hmem, hin⟩ := List.mem_flatMap.mp hpiece
    exact (hwritten stretch hmem).pieces piece hin
  no_mark := by
    rw [bare_ofStretches]
    exact Code.unmarked_iff.mp hmarks

end CodeLine

namespace Code

/-- **Braces are counted in code alone.** A line of stretches of code and of string literals, with
any comment behind it, opens as many braces more than it closes as its stretches of code do. -/
theorem braceBalance_stretches {stretches : List Stretch}
    (hwritten : ∀ stretch ∈ stretches, stretch.IsWritten) (hmarks : Unmarked stretches)
    (comment : Option Text) :
    braceBalance (stretches.flatMap Stretch.text ++ CodeLine.commentPart comment) =
      ((stretches.flatMap Stretch.codeText).count '\x7b' : Int) -
        (stretches.flatMap Stretch.codeText).count '\x7d' := by
  have hline : (CodeLine.ofStretches stretches comment).IsWritten :=
    CodeLine.isWritten_ofStretches comment hwritten hmarks
  calc braceBalance (stretches.flatMap Stretch.text ++ CodeLine.commentPart comment)
      = braceBalance (CodeLine.ofStretches stretches comment).text := by
        rw [CodeLine.text_ofStretches]
    _ = (CodeLine.ofStretches stretches comment).balance := braceBalance_text hline
    _ = ((stretches.flatMap Stretch.codeText).count '\x7b' : Int) -
          (stretches.flatMap Stretch.codeText).count '\x7d' := by
        rw [CodeLine.balance, CodeLine.count_bare_ofStretches _ _ (by decide),
          CodeLine.count_bare_ofStretches _ _ (by decide)]

/-- Hyphens on both sides of literals that hold braces, marks of comments and escaped quotes, and
stretches of code that meet. -/
def tangledLine : List Stretch :=
  [.code "A = -".toList, .literal '"' "--\x7b\\\"".toList, .code "-".toList,
    .literal '\'' "\x7d\\\\".toList, .code " - \x7b".toList, .code "-".toList]

theorem tangledLine_isWritten : ∀ stretch ∈ tangledLine, stretch.IsWritten := by
  have hcode (text : Text) (h : ∀ c ∈ text, c ≠ '\'' ∧ c ≠ '"') : (Stretch.code text).IsWritten := h
  have hdouble : IsLiteralBody '"' "--\x7b\\\"".toList :=
    .char (by decide) (.char (by decide) (.char (by decide) (.escape (by decide) .nil)))
  have hsingle : IsLiteralBody '\'' "\x7d\\\\".toList :=
    .char (by decide) (.escape (by decide) .nil)
  simp only [tangledLine, List.forall_mem_cons]
  exact ⟨hcode _ (by decide), ⟨.inr rfl, hdouble⟩, hcode _ (by decide), ⟨.inl rfl, hsingle⟩,
    hcode _ (by decide), hcode _ (by decide), by simp⟩

/-- A hyphen in front of the comment, and quotes and a brace in it. -/
theorem braceBalance_tangledLine :
    tangledLine.flatMap Stretch.text ++ CodeLine.commentPart (some " it's \"\x7d".toList) =
        "A = -\"--\x7b\\\"\"-'\x7d\\\\' - \x7b--- it's \"\x7d".toList ∧
      (∀ stretch ∈ tangledLine, stretch.IsWritten) ∧ Unmarked tangledLine ∧
      braceBalance "A = -\"--\x7b\\\"\"-'\x7d\\\\' - \x7b--- it's \"\x7d".toList = 1 := by
  have htext : tangledLine.flatMap Stretch.text ++
      CodeLine.commentPart (some " it's \"\x7d".toList) =
        "A = -\"--\x7b\\\"\"-'\x7d\\\\' - \x7b--- it's \"\x7d".toList := by decide +kernel
  have hmarks : Unmarked tangledLine := by decide +kernel
  have hcount : ((tangledLine.flatMap Stretch.codeText).count '\x7b' : Int) -
      (tangledLine.flatMap Stretch.codeText).count '\x7d' = 1 := by decide +kernel
  refine ⟨htext, tangledLine_isWritten, hmarks, ?_⟩
  rw [← htext, braceBalance_stretches tangledLine_isWritten hmarks, hcount]

end Code

end LuaReference
