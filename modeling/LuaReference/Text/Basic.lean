set_option autoImplicit false

/-! # Texts

A text is the list of its characters. Positions and lengths count characters, so a place in
a text is the number of characters in front of it, and what a recogniser leaves over is a
final part of the text it was given.
-/

namespace LuaReference

/-- A text: its characters in order. -/
abbrev Text := List Char

namespace Text

/-- The text in front of the first place where `mark` occurs, or `none` when it occurs
nowhere. -/
def before? (mark : Text) : Text → Option Text
  | [] => if mark.isEmpty then some [] else none
  | c :: rest =>
      if mark.isPrefixOf (c :: rest) then some [] else (before? mark rest).map (c :: ·)

/-- The text in front of the first `mark`; all of the text when there is none. -/
def cutAt (mark text : Text) : Text := (before? mark text).getD text

/-- The text behind the first place where the character `mark` stands, or `none` when it
stands nowhere. -/
def after? (mark : Char) : Text → Option Text
  | [] => none
  | c :: rest => if c = mark then some rest else after? mark rest

/-- The parts between the separators `mark`; a text without `mark` is its own only part. -/
def splitAtEach (mark : Char) : Text → List Text
  | [] => [[]]
  | c :: rest =>
      if c = mark then [] :: splitAtEach mark rest
      else match splitAtEach mark rest with
        | [] => [[c]]
        | part :: more => (c :: part) :: more

/-- The texts in order with `separator` between each two. -/
def join (separator : Text) : List Text → Text
  | [] => []
  | [part] => part
  | part :: more => part ++ separator ++ join separator more

/-- The order of texts by code points: the first difference decides, and a text comes in
front of its continuations. -/
def precedes : Text → Text → Bool
  | [], _ => true
  | _ :: _, [] => false
  | a :: s, b :: t => a.toNat < b.toNat || (a.toNat == b.toNat && precedes s t)

/-- The texts in the order of their code points, repetitions kept. -/
def sorted (texts : List Text) : List Text := texts.mergeSort precedes

/-- The decimal numeral of a natural number. -/
def ofNat (n : Nat) : Text := Nat.toDigits 10 n

end Text

end LuaReference
