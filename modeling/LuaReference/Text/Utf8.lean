import LuaReference.Text.Lines

set_option autoImplicit false

/-! # Bytes as text

Files hold bytes. A file is read as UTF-8 with its line breaks unified, and written as UTF-8
without a change to them.
-/

namespace LuaReference.Text

/-- The text that the bytes spell in UTF-8, or `none` when they spell none. -/
def ofUtf8? (bytes : List UInt8) : Option Text :=
  (String.fromUTF8? ⟨bytes.toArray⟩).map String.toList

/-- The bytes of a text in UTF-8. -/
def toUtf8 (text : Text) : List UInt8 := (String.ofList text).toUTF8.toList

/-- The text of a file with these bytes, or `none` when they are not UTF-8. -/
def ofFile? (bytes : List UInt8) : Option Text := (ofUtf8? bytes).map unifyBreaks

end LuaReference.Text
