set_option autoImplicit false

/-! # Sets of characters as ranges of code points

A class of characters that a standard lists as ranges is kept as those ranges, lowest first
and both ends included.
-/

namespace LuaReference

/-- Ranges of code points, both ends included. -/
abbrev Ranges := List (Nat × Nat)

/-- Whether a character lies in one of the ranges. -/
def Ranges.contains (ranges : Ranges) (c : Char) : Bool :=
  ranges.any fun (low, high) => low ≤ c.toNat && c.toNat ≤ high

end LuaReference
