import LuaReference.Text.Basic

set_option autoImplicit false

/-! # Lines

A text is read as lines. Eleven line breaks are known, a carriage return followed by a line
feed being one of them; a break at the very end of the text opens no further line.
-/

namespace LuaReference.Text

/-- Whether a character ends a line. -/
def isLineBreak (c : Char) : Bool :=
  ['\n', '\r', '\x0b', '\x0c', '\x1c', '\x1d', '\x1e', '\u0085', '\u2028', '\u2029'].contains c

/-- The lines of a text without their breaks. -/
def lines : Text → List Text
  | [] => []
  | '\r' :: '\n' :: rest => [] :: lines rest
  | c :: rest =>
      if isLineBreak c then [] :: lines rest
      else match lines rest with
        | [] => [[c]]
        | line :: more => (c :: line) :: more

/-- The text with each carriage return, alone or in front of a line feed, written as one line
feed: the form in which the text of a file is read. -/
def unifyBreaks : Text → Text
  | [] => []
  | '\r' :: '\n' :: rest => '\n' :: unifyBreaks rest
  | c :: rest => (if c = '\r' then '\n' else c) :: unifyBreaks rest

end LuaReference.Text
