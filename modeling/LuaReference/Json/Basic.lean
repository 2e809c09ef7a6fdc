import LuaReference.Text.Basic

set_option autoImplicit false

/-! # JSON values

A JSON value keeps the members of an object in their order. A number is kept as its literal,
since nothing here calculates with numbers.
-/

namespace LuaReference

/-- A JSON value. -/
inductive Json where
  | null
  | bool (value : Bool)
  /-- A number with its literal. -/
  | number (literal : Text)
  | string (value : Text)
  | array (items : List Json)
  | object (members : List (Text × Json))

namespace Json

/-- The value of a member, the last one if several have the name. -/
def lastOf? (name : Text) : List (Text × Json) → Option Json
  | [] => none
  | (key, value) :: rest =>
      match lastOf? name rest with
      | some found => some found
      | none => if key = name then some value else none

/-- The members with each name once, in the order of their first places and with the values of
their last. -/
def settled : List (Text × Json) → List (Text × Json)
  | [] => []
  | (key, value) :: rest =>
      (key, (lastOf? key rest).getD value) :: (settled rest).filter (·.1 ≠ key)

/-- A text, or null when it is absent. -/
def ofOption : Option Text → Json
  | none => null
  | some text => string text

end Json

end LuaReference
