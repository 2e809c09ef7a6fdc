import LuaReference.Json.Number
import LuaReference.Text.CodeUnit
import LuaReference.Text.Hexadecimal
import LuaReference.Text.Integer

set_option autoImplicit false

/-! # Reading JSON

A text is read as exactly one value with blanks around it. Three names of numbers that are no
numerals are read too: `NaN`, `Infinity` and `-Infinity`. Of members with one name the place of
the first and the value of the last are kept. Values may lie only so deep in one another, and a
whole number may have only so many digits.
-/

namespace LuaReference.Json

/-- Why a text cannot be read. -/
inductive ReadError where
  | malformed
  /-- Values lie too deep in one another; the last is an object or an array. -/
  | tooDeep (isObject : Bool)
  /-- A whole number has too many digits. -/
  | tooLong (digits : Nat)
deriving DecidableEq

namespace ReadError

/-- The error as a message. -/
def message : ReadError → Text
  | .malformed => "not JSON".toList
  | .tooDeep isObject =>
      "maximum recursion depth exceeded while decoding a JSON ".toList ++
        (if isObject then "object".toList else "array".toList) ++ " from a unicode string".toList
  | .tooLong digits =>
      "Exceeds the limit (".toList ++ Text.ofNat Text.digitLimit ++
        " digits) for integer string conversion: value has ".toList ++ Text.ofNat digits ++
        " digits; use sys.set_int_max_str_digits() to increase the limit".toList

end ReadError

/-- How many arrays and objects may lie in one another. -/
def depthLimit : Nat := 970

/-- The text without the spaces, tabulators and line ends it begins with. -/
def skipSpace (text : Text) : Text := text.dropWhile [' ', '\t', '\n', '\r'].contains

/-! ## Strings -/

/-- The code unit that four hexadecimal digits stand for. -/
def hexUnit? (a b c d : Char) : Option CodeUnit := do
  let high := 16 * (← hexValue? a) + (← hexValue? b)
  let low := 16 * (← hexValue? c) + (← hexValue? d)
  return .unit (256 * high + low)

/-- The character that a backslash and a letter stand for. -/
def unescape? (c : Char) : Option Char :=
  match c with
  | '"' => some '"'
  | '\\' => some '\\'
  | '/' => some '/'
  | 'b' => some '\x08'
  | 'f' => some '\x0c'
  | 'n' => some '\n'
  | 'r' => some '\r'
  | 't' => some '\t'
  | _ => none

/-- Reads the parts of a string behind its opening quote, up to and with the closing one. -/
def content? : Text → Option (List CodeUnit × Text)
  | [] => none
  | '"' :: rest => some ([], rest)
  | '\\' :: 'u' :: a :: b :: c :: d :: rest => do
      let unit ← hexUnit? a b c d
      let (units, rest) ← content? rest
      return (unit :: units, rest)
  | '\\' :: letter :: rest => do
      let c ← unescape? letter
      let (units, rest) ← content? rest
      return (.char c :: units, rest)
  | c :: rest =>
      if c = '\\' || c.toNat < 0x20 then none
      else do
        let (units, rest) ← content? rest
        return (.char c :: units, rest)

/-- Reads a string behind its opening quote. -/
def readString (row : Placeholders) (text : Text) : Except ReadError (Text × Text) :=
  match content? text with
  | none => .error .malformed
  | some (units, rest) => .ok (row.text units, rest)

/-! ## Numbers -/

/-- Reads the whole part of a numeral: a zero, or digits of which the first is not zero. -/
def wholePart? : Text → Option (Text × Text)
  | '0' :: rest => some (['0'], rest)
  | text =>
      match text.takeWhile Char.isDigit with
      | [] => none
      | digits => some (digits, text.dropWhile Char.isDigit)

/-- Reads the decimal places of a numeral, if it has any, behind their point. -/
def decimals (text : Text) : Text × Text :=
  match text with
  | '.' :: rest =>
      match rest.takeWhile Char.isDigit with
      | [] => ([], text)
      | digits => (digits, rest.dropWhile Char.isDigit)
  | _ => ([], text)

/-- Reads the exponent of a numeral if it has one. -/
def exponent (text : Text) : Option Int × Text :=
  match text with
  | mark :: rest =>
      if mark = 'e' || mark = 'E' then
        let (negative, digits) := match rest with
          | '+' :: digits => (false, digits)
          | '-' :: digits => (true, digits)
          | digits => (false, digits)
        match digits.takeWhile Char.isDigit with
        | [] => (none, text)
        | figures =>
            let value : Int := ofDigits figures
            (some (if negative then -value else value), digits.dropWhile Char.isDigit)
      else (none, text)
  | [] => (none, text)

/-- Reads a numeral. -/
def readNumeral (text : Text) : Except ReadError (Json × Text) :=
  let (negative, unsigned) := match text with
    | '-' :: rest => (true, rest)
    | rest => (false, rest)
  match wholePart? unsigned with
  | none => .error .malformed
  | some (whole, rest) =>
      let (places, rest) := decimals rest
      let (exponent, rest) := exponent rest
      let numeral : Numeral := { negative, whole, places, exponent }
      if numeral.isWhole && Text.digitLimit < whole.length then .error (.tooLong whole.length)
      else .ok (.number numeral.literal, rest)

/-! ## Values -/

/-- The words that stand for values. -/
def words : List (Text × Json) :=
  [("null".toList, .null), ("true".toList, .bool true), ("false".toList, .bool false)] ++
    specialLiterals.map fun literal => (literal, .number literal)

/-- Reads a word or a numeral. -/
def readScalar (text : Text) : Except ReadError (Json × Text) :=
  match words.findSome? fun (word, value) => (word.isPrefixOf? text).map (value, ·) with
  | some found => .ok found
  | none => readNumeral text

mutual

/-- Reads a value that `depth` arrays and objects may still lie in. -/
def readValue (row : Placeholders) (depth : Nat) :
    Nat → Text → Except ReadError (Json × Text)
  | 0, _ => .error .malformed
  | fuel + 1, text =>
      match text with
      | '"' :: rest => (readString row rest).map fun (value, rest) => (.string value, rest)
      | '[' :: rest =>
          match depth with
          | 0 => .error (.tooDeep false)
          | depth + 1 =>
              match skipSpace rest with
              | ']' :: rest => .ok (.array [], rest)
              | rest => (readItems row depth fuel rest).map fun (items, rest) =>
                  (.array items, rest)
      | '\x7b' :: rest =>
          match depth with
          | 0 => .error (.tooDeep true)
          | depth + 1 =>
              match skipSpace rest with
              | '\x7d' :: rest => .ok (.object [], rest)
              | rest => (readMembers row depth fuel rest).map fun (members, rest) =>
                  (.object (settled members), rest)
      | text => readScalar text

/-- Reads the items of an array from the first one on, and its closing bracket. -/
def readItems (row : Placeholders) (depth : Nat) :
    Nat → Text → Except ReadError (List Json × Text)
  | 0, _ => .error .malformed
  | fuel + 1, text => do
      let (item, rest) ← readValue row depth fuel text
      match skipSpace rest with
      | ']' :: rest => .ok ([item], rest)
      | ',' :: rest => do
          let (items, rest) ← readItems row depth fuel (skipSpace rest)
          .ok (item :: items, rest)
      | _ => .error .malformed

/-- Reads the members of an object from the first one on, and its closing brace. -/
def readMembers (row : Placeholders) (depth : Nat) :
    Nat → Text → Except ReadError (List (Text × Json) × Text)
  | 0, _ => .error .malformed
  | fuel + 1, text =>
      match text with
      | '"' :: rest => do
          let (name, rest) ← readString row rest
          match skipSpace rest with
          | ':' :: rest => do
              let (value, rest) ← readValue row depth fuel (skipSpace rest)
              match skipSpace rest with
              | '\x7d' :: rest => .ok ([(name, value)], rest)
              | ',' :: rest => do
                  let (members, rest) ← readMembers row depth fuel (skipSpace rest)
                  .ok ((name, value) :: members, rest)
              | _ => .error .malformed
          | _ => .error .malformed
      | _ => .error .malformed

end

/-- The code units that escapes in a text stand for. -/
def escapedUnits : Text → List CodeUnit
  | [] => []
  | '\\' :: 'u' :: a :: b :: c :: d :: rest =>
      match hexUnit? a b c d with
      | some unit => unit :: escapedUnits rest
      | none => escapedUnits (a :: b :: c :: d :: rest)
  | _ :: rest => escapedUnits rest

/-- A row of placeholders that no character of a text lies in, nor one that is spelled by
escapes. -/
def freeRow (units : List CodeUnit) : Placeholders :=
  let text := (Placeholders.avoiding []).text units
  .avoiding (units.map CodeUnit.point ++ (escapedUnits text).map CodeUnit.point)

/-- The value that a text stands for, `row` holding the placeholders for halves of surrogate
pairs. -/
def read (row : Placeholders) (text : Text) : Except ReadError Json := do
  let (value, rest) ← readValue row depthLimit (text.length + 1) (skipSpace text)
  if (skipSpace rest).isEmpty then .ok value else .error .malformed

end LuaReference.Json
