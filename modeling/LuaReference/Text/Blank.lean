import LuaReference.Text.Basic
import LuaReference.Text.Ranges

set_option autoImplicit false

/-! # Blanks

The blanks are the characters that Unicode counts as white space together with the four
information separators. Trimming takes them off both ends of a text.
-/

namespace LuaReference

/-- The code points of the blanks. -/
def blankRanges : Ranges :=
  [(0x9, 0xD), (0x1C, 0x20), (0x85, 0x85), (0xA0, 0xA0), (0x1680, 0x1680), (0x2000, 0x200A),
    (0x2028, 0x2029), (0x202F, 0x202F), (0x205F, 0x205F), (0x3000, 0x3000)]

/-- Whether a character is a blank. -/
def isBlank (c : Char) : Bool := blankRanges.contains c

namespace Text

/-- The text without the blanks it begins with. -/
def skipBlanks (text : Text) : Text := text.dropWhile isBlank

/-- The text without the blanks it ends in. -/
def dropTrailingBlanks : Text → Text
  | [] => []
  | c :: rest =>
      match dropTrailingBlanks rest with
      | [] => if isBlank c then [] else [c]
      | kept => c :: kept

/-- The text without the blanks at its two ends. -/
def trim (text : Text) : Text := dropTrailingBlanks (skipBlanks text)

/-- What follows one or more blanks, or `none` when the text does not begin with a blank. -/
def afterBlanks? : Text → Option Text
  | [] => none
  | c :: rest => if isBlank c then some (skipBlanks rest) else none

end Text

end LuaReference
