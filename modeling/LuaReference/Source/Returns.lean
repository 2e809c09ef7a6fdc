import LuaReference.Source.Declaration

set_option autoImplicit false

/-! # Whether a function returns a value

A function whose results are not documented is taken to return a value when its text has the
word `return` with something behind it. The text is read from the declaration up to the line
`end` that closes the function; a line that begins with `function` needs an `end` of its own,
other blocks are not counted.
-/

namespace LuaReference.Returns

/-- The leftmost `return` that is a word of its own and has a blank behind it; `inWord` tells
whether a word character stands in front of the text. -/
def findFrom (inWord : Bool) : Text → Option (Found Unit)
  | [] => none
  | c :: rest =>
      match if inWord then none else Tag.afterKeyword? "return".toList (c :: rest) with
      | some behind => some ⟨0, (), behind⟩
      | none => (findFrom (isWord c) rest).map fun found => { found with start := found.start + 1 }

/-- The leftmost `return` that gives back a value. -/
def find (text : Text) : Option (Found Unit) := findFrom false text

/-- Whether a piece of code gives back a value. -/
def returnsValue (code : Text) : Bool := (find code).isSome

/-- The text of a line of code from its first `function` on. -/
def fromFunction? : Text → Option Text
  | [] => none
  | c :: rest =>
      if "function".toList.isPrefixOf (c :: rest) then some (c :: rest) else fromFunction? rest

/-- Whether the line of a declaration itself gives back a value. -/
def inDeclaration (line : Text) : Bool := (fromFunction? (Code.ofLine line)).any returnsValue

/-- Whether one of the following lines gives back a value before the function is closed, with
`depth` functions open inside of it. -/
def inBody (depth : Nat) : List Text → Bool
  | [] => false
  | line :: rest =>
      if commentMarker.isPrefixOf (Text.trim line) then inBody depth rest
      else
        let code := Code.ofLine (Text.trim line)
        if "function".toList.isPrefixOf code then
          returnsValue code || inBody (depth + 1) rest
        else if code = "end".toList then
          match depth with
          | 0 => false
          | depth + 1 => inBody depth rest
        else returnsValue code || inBody depth rest

/-- Whether the function declared on `line` gives back a value, `rest` being the lines that
follow. -/
def afterLine (line : Text) (rest : List Text) : Bool := inDeclaration line || inBody 0 rest

end LuaReference.Returns
