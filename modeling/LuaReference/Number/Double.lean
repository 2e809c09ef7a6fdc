import LuaReference.Text.Basic

set_option autoImplicit false

/-! # Numbers of double precision

A finite number of double precision is a mantissa of at most 53 bits times a power of two. A
decimal is read as the nearest such number. The shortest decimal of a number is the one with the
fewest digits among those that are read as it: of several the closest one, and of two that are
equally close the even one.
-/

namespace LuaReference

/-- The number `digits * 10 ^ exponent`. -/
structure Decimal where
  digits : Nat
  exponent : Int
deriving DecidableEq

/-- The number `mantissa * 2 ^ exponent`. -/
structure Double where
  mantissa : Nat
  exponent : Int
  /-- Whether the next number below is half as far away as the next one above. -/
  narrowBelow : Bool
deriving DecidableEq

namespace Double

/-- The number with these bits, its sign left aside, or `none` if it is not finite. -/
def ofBits? (bits : UInt64) : Option Double :=
  let power : Nat := bits.toNat / Nat.pow 2 52 % Nat.pow 2 11
  let fraction : Nat := bits.toNat % Nat.pow 2 52
  if power = 0 then some ⟨fraction, -1074, false⟩
  else if power = 2047 then none
  else some ⟨Nat.pow 2 52 + fraction, (power : Int) - 1075, fraction = 0 && 1 < power⟩

/-- The number nearest to a decimal, or `none` if it is not finite. -/
def nearest? (decimal : Decimal) : Option Double :=
  ofBits?
    (Float.ofScientific decimal.digits (decimal.exponent < 0) decimal.exponent.natAbs).toBits

/-! ## The shortest decimal

A number is a whole number of units, a unit being ten to the power of `-places`.
-/

/-- The decimal places of the units that the number is counted in. -/
def places (x : Double) : Nat := (-x.exponent).toNat

/-- How many units the last bit of the mantissa stands for. -/
def lastBit (x : Double) : Nat :=
  if 0 ≤ x.exponent then Nat.pow 2 x.exponent.toNat else Nat.pow 5 x.places

/-- How many units the number has. -/
def units (x : Double) : Nat := x.mantissa * x.lastBit

/-- Whether so many units are read as the number: whether they lie between the middles to its
neighbours, or on one of them if the mantissa is even. -/
def reads (x : Double) (units : Nat) : Bool :=
  let below := (4 * x.mantissa - if x.narrowBelow then 1 else 2) * x.lastBit
  let above := (4 * x.mantissa + 2) * x.lastBit
  if x.mantissa % 2 = 0 then below ≤ 4 * units && 4 * units ≤ above
  else below < 4 * units && 4 * units < above

/-- The multiple of `grid` units that is read as the number and closest to it. -/
def multiple? (x : Double) (grid : Nat) : Option Nat :=
  let low := x.units / grid
  match x.reads (low * grid), x.reads ((low + 1) * grid) with
  | true, true =>
      let middle := (2 * low + 1) * grid
      if 2 * x.units < middle || (2 * x.units = middle && low % 2 = 0) then some low
      else some (low + 1)
  | true, false => some low
  | false, true => some (low + 1)
  | false, false => none

/-- The most digits that a shortest decimal has. -/
def digitLimit : Nat := 17

/-- The shortest decimal that is read as the number. -/
def shortest (x : Double) : Decimal :=
  let length := (Text.ofNat x.units).length
  let found := (List.range digitLimit).findSome? fun n =>
    let dropped := length - (n + 1)
    (x.multiple? (Nat.pow 10 dropped)).map fun digits => Decimal.mk digits (dropped - x.places)
  found.getD ⟨x.units, -x.places⟩

end Double

end LuaReference
