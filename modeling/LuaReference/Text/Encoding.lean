import LuaReference.Text.CodeUnit
import LuaReference.Text.Utf8

set_option autoImplicit false

/-! # Encodings

A JSON text may come in one of five encodings. Since it begins with a character of ASCII, the
zero bytes among its first four bytes tell which one it is.
-/

namespace LuaReference

/-- How a text is spelled in bytes. -/
inductive Encoding where
  | utf8
  | utf16 (bigEndian : Bool)
  | utf32 (bigEndian : Bool)
deriving DecidableEq

namespace Encoding

/-- The encoding of a JSON text. -/
def detect : List UInt8 → Encoding
  | a :: b :: c :: d :: _ =>
      if a = 0 then if b = 0 then .utf32 true else .utf16 true
      else if b = 0 then if c = 0 && d = 0 then .utf32 false else .utf16 false
      else .utf8
  | [a, b] => if a = 0 then .utf16 true else if b = 0 then .utf16 false else .utf8
  | _ => .utf8

/-- The code units of two bytes each, or `none` when a byte is left over. -/
def pairs? (bigEndian : Bool) : List UInt8 → Option (List CodeUnit)
  | [] => some []
  | [_] => none
  | a :: b :: rest =>
      let unit := if bigEndian then 256 * a.toNat + b.toNat else 256 * b.toNat + a.toNat
      (pairs? bigEndian rest).map (.unit unit :: ·)

/-- The code units of four bytes each, or `none` when bytes are left over or a number is no
code point. -/
def quadruples? (bigEndian : Bool) : List UInt8 → Option (List CodeUnit)
  | [] => some []
  | a :: b :: c :: d :: rest =>
      let value (w x y z : UInt8) : Nat :=
        256 * (256 * (256 * w.toNat + x.toNat) + y.toNat) + z.toNat
      let point := if bigEndian then value a b c d else value d c b a
      if isHighHalf point || isLowHalf point then
        (quadruples? bigEndian rest).map (.unit point :: ·)
      else if point ≤ 0x10FFFF then (quadruples? bigEndian rest).map (.char (Char.ofNat point) :: ·)
      else none
  | _ => none

/-- What bytes spell. In front of UTF-8 a byte order mark does not count. -/
def decode? (bytes : List UInt8) : Encoding → Option (List CodeUnit)
  | .utf8 => (Text.ofUtf8? bytes).map fun text =>
      ((['\ufeff'].isPrefixOf? text).getD text).map .char
  | .utf16 bigEndian => pairs? bigEndian bytes
  | .utf32 bigEndian => quadruples? bigEndian bytes

end Encoding

end LuaReference
