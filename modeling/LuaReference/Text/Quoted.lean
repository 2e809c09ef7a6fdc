import LuaReference.Text.Hexadecimal
import LuaReference.Text.Printable

set_option autoImplicit false

/-! # Quoted texts in messages

A message shows a text between single quotes, or between double quotes if the text holds a
single quote and no double one. The quote, the backslash and all characters that are not
printable are escaped.
-/

namespace LuaReference.Text

/-- A character as it is shown between two marks `mark`. -/
def showChar (mark c : Char) : Text :=
  if c = mark || c = '\\' then ['\\', c]
  else if c = '\n' then ['\\', 'n']
  else if c = '\r' then ['\\', 'r']
  else if c = '\t' then ['\\', 't']
  else if isPrintable c then [c]
  else if c.toNat < 0x100 then '\\' :: 'x' :: hexadecimal 2 c.toNat
  else if c.toNat < 0x10000 then '\\' :: 'u' :: hexadecimal 4 c.toNat
  else '\\' :: 'U' :: hexadecimal 8 c.toNat

/-- The quotes a text is shown between. -/
def quoteMark (text : Text) : Char :=
  if text.contains '\'' && !text.contains '"' then '"' else '\''

/-- A text as a message shows it. -/
def quoted (text : Text) : Text :=
  let mark := quoteMark text
  mark :: (text.flatMap (showChar mark) ++ [mark])

end LuaReference.Text
