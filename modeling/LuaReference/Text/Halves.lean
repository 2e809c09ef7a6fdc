import LuaReference.Text.CodeUnit
import LuaReference.Text.Hexadecimal

set_option autoImplicit false

/-! # Halves of surrogate pairs in texts

UTF-8 spells characters, and half of a surrogate pair is none. So a text in which a placeholder
stands for a half cannot be spelled, and the first such place tells why.
-/

namespace LuaReference

/-- Halves of surrogate pairs that stand side by side in a text: the first one of them, its position
and that of the last one. -/
structure Halves where
  half : Nat
  first : Nat
  last : Nat
deriving DecidableEq

/-- Why the text around the halves cannot be spelled. -/
def Halves.message (halves : Halves) : Text :=
  let place :=
    if halves.first = halves.last then
      " '\\u".toList ++ Text.hexadecimal 4 halves.half ++ "' in position ".toList ++
        Text.ofNat halves.first
    else "s in position ".toList ++ Text.ofNat halves.first ++ '-' :: Text.ofNat halves.last
  "'utf-8' codec can't encode character".toList ++ place ++ ": surrogates not allowed".toList

namespace Placeholders

/-- Whether a placeholder of the row stands in a text. -/
def occurIn (row : Placeholders) (text : Text) : Bool := text.any fun c => (row.half? c).isSome

/-- The first halves in a text, `position` being the place of its first character. -/
def findHalves? (row : Placeholders) (position : Nat) : Text → Option Halves
  | [] => none
  | c :: rest =>
      match row.half? c with
      | none => findHalves? row (position + 1) rest
      | some half =>
          let run := (rest.takeWhile fun c => (row.half? c).isSome).length
          some ⟨half, position, position + run⟩

/-- The text with the placeholders of another row. -/
def respell (row other : Placeholders) (text : Text) : Text :=
  text.map fun c =>
    match row.half? c with
    | some half => other.char half
    | none => c

end Placeholders

end LuaReference
