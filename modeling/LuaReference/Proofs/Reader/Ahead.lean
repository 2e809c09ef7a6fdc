import LuaReference.Proofs.Reader.Step

set_option autoImplicit false

/-! # What a run sees of the lines behind it

A line is read together with the lines that follow it, and of these it only matters whether they
give back a value before a function is closed. Lists of lines that agree in this, however many
functions are open, are `SameBody`. The lines in front of them are read to the same state
(`advance_of_sameBody`), so two sources that go on in different ways need to be compared only from
the line on where they begin to differ.
-/

namespace LuaReference

namespace Returns

/-- Two lists of lines that tell the same of a function that is open in front of them, however many
functions are open inside of it. -/
def SameBody (lines lines' : List Text) : Prop :=
  ∀ depth, inBody depth lines = inBody depth lines'

namespace SameBody

variable {line line' : Text} {rest rest' : List Text}

theorem refl (lines : List Text) : SameBody lines lines := fun _ => rfl

/-- Of a line it matters whether it is all comment, and what its code is. -/
theorem cons
    (hcomment : commentMarker.isPrefixOf (Text.trim line) =
      commentMarker.isPrefixOf (Text.trim line'))
    (hcode : Code.ofLine (Text.trim line) = Code.ofLine (Text.trim line'))
    (h : SameBody rest rest') : SameBody (line :: rest) (line' :: rest') := by
  intro depth
  have hrest : ∀ depth, inBody depth rest = inBody depth rest' := h
  simp only [inBody, hcomment, hcode, hrest]

/-- A line that is all comment is passed over. -/
theorem comment (h : commentMarker.isPrefixOf (Text.trim line) = true) (rest : List Text) :
    SameBody (line :: rest) rest := by
  intro depth
  simp only [inBody, h, if_true]

/-- What lines tell depends on the lines behind them only by what those tell. -/
theorem append (lines : List Text) (h : SameBody rest rest') :
    SameBody (lines ++ rest) (lines ++ rest') := by
  induction lines with
  | nil => exact h
  | cons line lines ih => exact cons rfl rfl ih

end SameBody

end Returns

namespace Reader

open Returns (SameBody)

/-- A line is read in the same way in front of lines that tell the same. -/
theorem step_of_sameBody {rest rest' : List Text} (h : SameBody rest rest') (reader : Reader)
    (line : Text) : step reader line rest = step reader line rest' := by
  have hfound (line : Text) : Returns.afterLine line rest = Returns.afterLine line rest' := by
    rw [Returns.afterLine, Returns.afterLine, h 0]
  simp only [step, plainLine, codeLine, commitBlock, commitFunction, hfound]

/-- So are any number of lines. -/
theorem advance_of_sameBody {rest rest' : List Text} (h : SameBody rest rest') (reader : Reader)
    (lines : List Text) : advance reader lines rest = advance reader lines rest' := by
  induction lines generalizing reader with
  | nil => rfl
  | cons line lines ih => rw [advance, advance, step_of_sameBody (h.append lines), ih]

end Reader

end LuaReference
