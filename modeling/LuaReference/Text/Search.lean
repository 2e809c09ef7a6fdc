import LuaReference.Text.Basic

set_option autoImplicit false

/-! # Searching a text

A recogniser reads something at the start of a text and returns it with the rest of the
text. Searching tries a recogniser at each place from left to right and stops at the first
place where it succeeds.
-/

namespace LuaReference

/-- Reads a value at the start of a text and returns it with the rest. -/
abbrev Recogniser (α : Type) := Text → Option (α × Text)

/-- A value found in a text: `start` characters stand in front of it and `rest` behind it. -/
structure Found (α : Type) where
  start : Nat
  value : α
  rest : Text
deriving DecidableEq

/-- The place of something found in `text`: the characters in front of its beginning and in
front of its end. -/
def Found.span {α : Type} (text : Text) (found : Found α) : Nat × Nat :=
  (found.start, text.length - found.rest.length)

/-- The leftmost place in the text where the recogniser succeeds. -/
def search {α : Type} (recognise : Recogniser α) : Text → Option (Found α)
  | [] => (recognise []).map fun (value, rest) => ⟨0, value, rest⟩
  | c :: text =>
      match recognise (c :: text) with
      | some (value, rest) => some ⟨0, value, rest⟩
      | none => (search recognise text).map fun found => { found with start := found.start + 1 }

end LuaReference
