import LuaReference.Json.Basic
import LuaReference.Number.Double

set_option autoImplicit false

/-! # Literals of numbers

A number has one literal, however it was written. A whole number has its digits. A number with
decimal places or an exponent is one of double precision and has the digits of its shortest
decimal, with a point if it is at least one ten thousandth and below ten to the sixteenth, else
with an exponent of at least two digits. Three literals are names of what is not finite.
-/

namespace LuaReference.Json

/-- The number that decimal digits stand for. -/
def ofDigits (digits : Text) : Nat := digits.foldl (fun n c => 10 * n + (c.toNat - 48)) 0

/-- The literal of a number that is too great for double precision. -/
def infinity : Text := "Infinity".toList

/-- The literals of what is not finite. -/
def specialLiterals : List Text := ["NaN".toList, infinity, '-' :: infinity]

/-! ## Decimals -/

/-- The literal of a number with the figures `figures`, of which the first is not zero, its
point standing behind `point` of them; a negative `point` stands for zeros in front. -/
def pointLiteral (figures : Text) (point : Int) : Text :=
  let zeros (n : Int) : Text := List.replicate n.toNat '0'
  let whole := figures.take point.toNat ++ zeros (point - figures.length)
  let places := zeros (-point) ++ figures.drop point.toNat
  (if whole.isEmpty then ['0'] else whole) ++ '.' :: (if places.isEmpty then ['0'] else places)

/-- The literal of a number with an exponent. -/
def exponentLiteral (figures : Text) (exponent : Int) : Text :=
  let digits := Text.ofNat exponent.natAbs
  let mark := if exponent < 0 then '-' else '+'
  let places := match figures.drop 1 with
    | [] => []
    | more => '.' :: more
  figures.take 1 ++ places ++ 'e' :: mark :: (List.replicate (2 - digits.length) '0' ++ digits)

/-- The literal of a decimal. -/
def decimalLiteral (decimal : Decimal) : Text :=
  let digits := Text.ofNat decimal.digits
  let figures := (digits.reverse.dropWhile (· = '0')).reverse
  let point := digits.length + decimal.exponent
  if figures.isEmpty then "0.0".toList
  else if -4 < point && point ≤ 16 then pointLiteral figures point
  else exponentLiteral figures (point - 1)

/-- The literal of the number of double precision that is nearest to `figures`, without a sign,
times ten to the power of `exponent`. The number of figures decides unless it is close to the
greatest or the least number. -/
def nearestLiteral (figures : Text) (exponent : Int) : Text :=
  let figures := figures.dropWhile (· = '0')
  let point := figures.length + exponent
  if figures.isEmpty || point < -323 then decimalLiteral ⟨0, 0⟩
  else if 309 < point then infinity
  else match Double.nearest? ⟨ofDigits figures, exponent⟩ with
    | none => infinity
    | some x => decimalLiteral x.shortest

/-! ## Numerals -/

/-- The parts of a numeral. -/
structure Numeral where
  negative : Bool
  whole : Text
  /-- The figures behind the point. -/
  places : Text
  exponent : Option Int
deriving DecidableEq

namespace Numeral

/-- Whether the numeral is written as a whole number. -/
def isWhole (numeral : Numeral) : Bool := numeral.places.isEmpty && numeral.exponent.isNone

/-- The literal of the number that the numeral stands for. Only among whole numbers zero has no
sign. -/
def literal (numeral : Numeral) : Text :=
  let unsigned :=
    if numeral.isWhole then numeral.whole
    else nearestLiteral (numeral.whole ++ numeral.places)
      (numeral.exponent.getD 0 - numeral.places.length)
  if numeral.negative && unsigned ≠ ['0'] then '-' :: unsigned else unsigned

end Numeral

/-! ## Finite numbers -/

mutual

/-- Whether all numbers in a value are finite. -/
def isFinite : Json → Bool
  | .number literal => !specialLiterals.contains literal
  | .array items => allFinite items
  | .object members => allFiniteMembers members
  | _ => true

/-- Whether all numbers in some values are finite. -/
def allFinite : List Json → Bool
  | [] => true
  | value :: rest => isFinite value && allFinite rest

/-- Whether all numbers in the values of members are finite. -/
def allFiniteMembers : List (Text × Json) → Bool
  | [] => true
  | (_, value) :: rest => isFinite value && allFiniteMembers rest

end

end LuaReference.Json
