import LuaReference.Tag.Basic

set_option autoImplicit false

/-! # Code and comments on a line

The code of a line is what stands in front of its first comment mark, trimmed. How far braces
nest is counted on code alone: a string literal counts as an empty one before the comment is
cut off.
-/

namespace LuaReference.Code

/-- The code of a line: the text in front of its first comment mark, trimmed. -/
def ofLine (line : Text) : Text := Text.trim (Text.cutAt commentMarker line)

/-! ## String literals -/

/-- The length of a string literal behind its opening quote, up to and with the quote that
closes it; a backslash takes the character behind it along, but no line feed. -/
def literalLength? (quote : Char) : Text → Option Nat
  | [] => none
  | '\\' :: c :: rest => if c = '\n' then none else (literalLength? quote rest).map (· + 2)
  | c :: rest =>
      if c = quote then some 1
      else if c = '\\' then none
      else (literalLength? quote rest).map (· + 1)

/-- The length of the string literal at the start of a text; zero where none begins. -/
def quotedLength : Text → Nat
  | [] => 0
  | c :: rest =>
      if c = '\'' || c = '"' then ((literalLength? c rest).map (· + 1)).getD 0 else 0

/-- The places of the string literals of a text, from left to right, `start` characters having
been passed and the next `skip` ones belonging to a literal. -/
def literalSpansFrom (start skip : Nat) : Text → List (Nat × Nat)
  | [] => []
  | c :: rest =>
      match skip with
      | skip + 1 => literalSpansFrom (start + 1) skip rest
      | 0 =>
          let length := quotedLength (c :: rest)
          if length = 0 then literalSpansFrom (start + 1) 0 rest
          else (start, start + length) :: literalSpansFrom (start + 1) (length - 1) rest

/-- The places of the string literals of a text, from left to right. -/
def literalSpans (text : Text) : List (Nat × Nat) := literalSpansFrom 0 0 text

/-- A text with each string literal emptied, its next `skip` characters belonging to one that
is emptied already. -/
def emptyLiteralsFrom (skip : Nat) : Text → Text
  | [] => []
  | c :: rest =>
      match skip with
      | skip + 1 => emptyLiteralsFrom skip rest
      | 0 =>
          let length := quotedLength (c :: rest)
          if length = 0 then c :: emptyLiteralsFrom 0 rest
          else '"' :: '"' :: emptyLiteralsFrom (length - 1) rest

/-- A text with each string literal replaced by an empty one. -/
def emptyLiterals (text : Text) : Text := emptyLiteralsFrom 0 text

/-! ## Braces -/

/-- How many more braces a line of code opens than it closes. -/
def braceBalance (line : Text) : Int :=
  let code := ofLine (emptyLiterals line)
  (code.count '\x7b' : Int) - code.count '\x7d'

/-- The trimmed text behind the first opening brace of a line that has one. -/
def afterBrace? (line : Text) : Option Text := (Text.after? '\x7b' line).map Text.trim

end LuaReference.Code
