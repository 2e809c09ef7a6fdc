import LuaReference.Text.Blank
import LuaReference.Text.Digit

set_option autoImplicit false

/-! # Integers as text

An integer is written as an optional sign and decimal digits of any script, with single
underscores allowed between two digits and blanks around it. The information separators do not
count as blanks here, and a numeral of more than 4300 digits is refused.
-/

namespace LuaReference.Text

/-- Whether a character may surround an integer. -/
def isIntegerBlank (c : Char) : Bool := isBlank c && !(0x1C ≤ c.toNat && c.toNat ≤ 0x1F)

/-- The values of digits that continue a numeral, an underscore being allowed in front of
each. -/
def moreDigits? : Text → Option (List Nat)
  | [] => some []
  | '_' :: c :: rest => do return (← digitValue? c) :: (← moreDigits? rest)
  | c :: rest => do return (← digitValue? c) :: (← moreDigits? rest)

/-- The most digits the numeral of an integer may have. -/
def digitLimit : Nat := 4300

/-- The number that a numeral without a sign stands for. -/
def natural? : Text → Option Nat
  | [] => none
  | c :: rest => do
      let digits := (← digitValue? c) :: (← moreDigits? rest)
      if digits.length ≤ digitLimit then
        some (digits.foldl (fun value digit => 10 * value + digit) 0)
      else none

/-- The text without the blanks around it that an integer may have. -/
def trimInteger (text : Text) : Text :=
  ((text.dropWhile isIntegerBlank).reverse.dropWhile isIntegerBlank).reverse

/-- The integer that a text stands for. -/
def integer? (text : Text) : Option Int :=
  match trimInteger text with
  | '-' :: rest => (natural? rest).map fun n => -(n : Int)
  | '+' :: rest => (natural? rest).map Int.ofNat
  | rest => (natural? rest).map Int.ofNat

end LuaReference.Text
