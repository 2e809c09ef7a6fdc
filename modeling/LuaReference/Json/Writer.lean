import LuaReference.Json.Basic
import LuaReference.Text.Hexadecimal

set_option autoImplicit false

/-! # Writing JSON

A value is written on one line or, if it is indented, with each item and each member on a line
of its own. In a string the quote, the backslash and the control characters are escaped; all
other characters stand for themselves.
-/

namespace LuaReference.Json

/-- How the items of a value are laid out. -/
inductive Layout where
  /-- All on one line and without a space. -/
  | dense
  /-- All on one line. -/
  | compact
  /-- Each on a line of its own, `width` spaces further in than what surrounds it. -/
  | indented (width : Nat)
deriving DecidableEq

/-- The layout for a requested indentation: none and zero keep all on one line, and a negative
one indents by nothing. -/
def Layout.ofIndent : Option Int → Layout
  | none => .compact
  | some indent => if indent = 0 then .compact else .indented indent.toNat

/-- The break in front of an item that stands at the given depth. -/
def Layout.lineBreak (depth : Nat) : Layout → Text
  | .dense | .compact => []
  | .indented width => '\n' :: List.replicate (width * depth) ' '

/-- What stands between two items at the given depth. -/
def Layout.separator (layout : Layout) (depth : Nat) : Text :=
  match layout with
  | .dense => [',']
  | .compact => ", ".toList
  | .indented _ => ',' :: layout.lineBreak depth

/-- What stands between the name of a member and its value. -/
def Layout.colon : Layout → Text
  | .dense => [':']
  | _ => ": ".toList

/-! ## Strings -/

/-- A character as it is written in a string. -/
def escape (c : Char) : Text :=
  if c = '"' then ['\\', '"']
  else if c = '\\' then ['\\', '\\']
  else if c = '\n' then ['\\', 'n']
  else if c = '\r' then ['\\', 'r']
  else if c = '\t' then ['\\', 't']
  else if c = '\x0c' then ['\\', 'f']
  else if c = '\x08' then ['\\', 'b']
  else if c.toNat < 0x20 then
    ['\\', 'u', '0', '0', hexDigit (c.toNat / 16), hexDigit (c.toNat % 16)]
  else [c]

/-- A text as a string literal. -/
def quote (text : Text) : Text := '"' :: (text.flatMap escape ++ ['"'])

/-! ## Values -/

mutual

/-- A value that stands at the given depth. -/
def writeAt (layout : Layout) (depth : Nat) : Json → Text
  | .null => "null".toList
  | .bool value => if value then "true".toList else "false".toList
  | .number literal => literal
  | .string value => quote value
  | .array [] => "[]".toList
  | .array (item :: items) =>
      '[' :: (layout.lineBreak (depth + 1) ++ writeAt layout (depth + 1) item ++
        writeItems layout (depth + 1) items ++ layout.lineBreak depth ++ [']'])
  | .object [] => ['\x7b', '\x7d']
  | .object ((key, value) :: members) =>
      '\x7b' :: (layout.lineBreak (depth + 1) ++ quote key ++ layout.colon ++
        writeAt layout (depth + 1) value ++ writeMembers layout (depth + 1) members ++
        layout.lineBreak depth ++ ['\x7d'])

/-- The items behind the first one of an array. -/
def writeItems (layout : Layout) (depth : Nat) : List Json → Text
  | [] => []
  | item :: items =>
      layout.separator depth ++ writeAt layout depth item ++ writeItems layout depth items

/-- The members behind the first one of an object. -/
def writeMembers (layout : Layout) (depth : Nat) : List (Text × Json) → Text
  | [] => []
  | (key, value) :: members =>
      layout.separator depth ++ quote key ++ layout.colon ++ writeAt layout depth value ++
        writeMembers layout depth members

end

/-- A value as text. -/
def write (layout : Layout) (value : Json) : Text := writeAt layout 0 value

end LuaReference.Json
