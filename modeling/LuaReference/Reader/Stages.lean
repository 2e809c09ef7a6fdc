import LuaReference.Reader.Basic

set_option autoImplicit false

/-! # Stages of reading a source

A stage is one line read outside of enum tables together with the lines of the table that
begins on it. The stages of a source tell how its documentation comes about.
-/

namespace LuaReference

/-- One stage of reading a source. -/
structure Stage where
  /-- The line that opens the stage. -/
  line : Text
  /-- How many lines have been read at the end of the stage. -/
  position : Nat
  /-- The state at the end of the stage. -/
  reader : Reader
deriving DecidableEq

namespace Stage

/-- The stages from inside of the one that `opened` has opened, for a source of `total`
lines. -/
def listFrom (total : Nat) (opened : Text) (reader : Reader) : List Text → List Stage
  | [] => [⟨opened, total, reader⟩]
  | line :: rest =>
      let next := reader.step line rest
      if reader.table.isSome then listFrom total opened next rest
      else ⟨opened, total - (rest.length + 1), reader⟩ :: listFrom total line next rest

/-- The stages of reading a source. -/
def list (code : Text) : List Stage :=
  match Text.lines code with
  | [] => []
  | line :: rest => listFrom (rest.length + 1) line (Reader.step {} line rest) rest

end Stage

end LuaReference
