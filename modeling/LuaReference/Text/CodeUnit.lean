import LuaReference.Text.Basic

set_option autoImplicit false

/-! # Code units

A text may be spelled in code units, of which a surrogate pair stands for one character. Half of
a pair is no character. Where one stands alone a placeholder takes its place in the text: the
halves, in their order, have the characters of a row of private code points for placeholders.
There are several such rows, so that one can be taken whose characters the text does not hold.
-/

namespace LuaReference

/-- A part of a spelled text: a character, or a code unit. -/
inductive CodeUnit where
  | char (c : Char)
  | unit (n : Nat)
deriving DecidableEq

/-- Whether a number is the first half of a surrogate pair. -/
def isHighHalf (n : Nat) : Bool := 0xD800 ≤ n && n ≤ 0xDBFF

/-- Whether a number is the second half of a surrogate pair. -/
def isLowHalf (n : Nat) : Bool := 0xDC00 ≤ n && n ≤ 0xDFFF

/-- The code point of the character that a surrogate pair stands for. -/
def pairPoint (high low : Nat) : Nat := 0x10000 + 0x400 * (high - 0xD800) + (low - 0xDC00)

/-- The code point of a part of a text; for the first half of a pair, the first of all that
such a pair may stand for. -/
def CodeUnit.point : CodeUnit → Nat
  | .char c => c.toNat
  | .unit n => if isHighHalf n then pairPoint n 0xDC00 else n

/-- A row of placeholders. -/
structure Placeholders where
  /-- The code point of the placeholder for the first half, U+D800. -/
  first : Nat
deriving DecidableEq

namespace Placeholders

/-- Whether a code point lies in the row. -/
def covers (row : Placeholders) (n : Nat) : Bool := row.first ≤ n && n ≤ row.first + 0x7FF

/-- All rows. They fill the last two planes, and a row has all characters for the pairs with one
of its first halves, or none of them. -/
def all : List Placeholders := (List.range 64).map fun n => ⟨0xF0000 + 0x800 * n⟩

/-- The first row that covers none of some code points. -/
def avoiding (points : List Nat) : Placeholders :=
  (all.find? fun row => points.all (!row.covers ·)).getD ⟨0xF0000⟩

/-- The character that a code point stands for, or the placeholder if it is a half. -/
def char (row : Placeholders) (n : Nat) : Char :=
  Char.ofNat (if isHighHalf n || isLowHalf n then row.first + (n - 0xD800) else n)

/-- The half that a character is the placeholder for, if it is one. -/
def half? (row : Placeholders) (c : Char) : Option Nat :=
  if row.covers c.toNat then some (0xD800 + (c.toNat - row.first)) else none

/-- The text that characters and code units spell. -/
def text (row : Placeholders) : List CodeUnit → Text
  | [] => []
  | .char c :: rest => c :: text row rest
  | .unit high :: .unit low :: rest =>
      if isHighHalf high && isLowHalf low then Char.ofNat (pairPoint high low) :: text row rest
      else row.char high :: text row (.unit low :: rest)
  | .unit n :: rest => row.char n :: text row rest

/-- The text with three replacement characters for each half, one for each of the bytes that it
would be spelled with. -/
def replaced (row : Placeholders) (text : Text) : Text :=
  text.flatMap fun c => if row.covers c.toNat then List.replicate 3 '\ufffd' else [c]

end Placeholders

end LuaReference
