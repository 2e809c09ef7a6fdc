import LuaReference.Text.Integer

set_option autoImplicit false

/-! # Numeric settings

A setting with a number may be left out or blank, and then has its default value. One that is
no integer has its default value too, which is worth a warning.
-/

namespace LuaReference

/-- A number and whether it stands in for one that could not be read. -/
structure NumericSetting where
  value : Int
  warned : Bool
deriving DecidableEq

/-- The value of a setting as it was written. -/
def NumericSetting.read (written : Option Text) (default : Int) : NumericSetting :=
  match Text.trim (written.getD []) with
  | [] => ⟨default, false⟩
  | text =>
      match Text.integer? text with
      | none => ⟨default, true⟩
      | some value => ⟨value, false⟩

end LuaReference
