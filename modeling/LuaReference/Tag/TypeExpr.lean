import LuaReference.Text.Blank
import LuaReference.Text.Word
import LuaReference.Text.Search

set_option autoImplicit false

/-! # Type expressions

A type expression is one alternative or several joined by bars, with an optional question mark
at the end:

    number | my.Class | string[] | table<string, number> | nil?
    fun(a: number, cb: fun(): nil): boolean

An alternative is a function type, whose parameter list may hold parentheses one level deep and
may be followed by a colon and a result, or an atom: a run of word characters, dots, question
marks and square brackets with an optional argument list in angle brackets.

The functions here measure how many characters of a text such an expression takes from its
start, each part as long as it can be; zero means that the text does not begin with one.
-/

namespace LuaReference.TypeExpr

/-- Whether a character may stand in the run of an atom. -/
def isAtomChar (c : Char) : Bool := isWord c || ['.', '?', '[', ']'].contains c

/-- The length of an argument list: `<`, one or more characters other than `>`, and `>`. -/
def argumentsLength : Text → Nat
  | '<' :: text =>
      let inside := (text.takeWhile (· != '>')).length
      if inside = 0 || inside = text.length then 0 else inside + 2
  | _ => 0

/-- The length of an atom. -/
def atomLength (text : Text) : Nat :=
  let run := (text.takeWhile isAtomChar).length
  if run = 0 then 0 else run + argumentsLength (text.drop run)

/-- The length of a parameter list behind its opening parenthesis, up to and with the
parenthesis that closes it. `nested` tells whether an inner parenthesis is open, in which a
further one has no place. -/
def closeLength? (nested : Bool) : Text → Option Nat
  | [] => none
  | c :: rest =>
      if c = ')' then
        if nested then (closeLength? false rest).map (· + 1) else some 1
      else if c = '(' then
        if nested then none else (closeLength? true rest).map (· + 1)
      else (closeLength? nested rest).map (· + 1)

/-- The length of a result: a colon, blanks on either side of it, and an atom. -/
def resultLength (text : Text) : Nat :=
  match Text.skipBlanks text with
  | ':' :: rest =>
      let result := atomLength (Text.skipBlanks rest)
      if result = 0 then 0 else text.length - (Text.skipBlanks rest).length + result
  | _ => 0

/-- The length of a function type. -/
def functionLength (text : Text) : Nat :=
  match "fun(".toList.isPrefixOf? text with
  | none => 0
  | some rest =>
      match closeLength? false rest with
      | none => 0
      | some close => 4 + close + resultLength (rest.drop close)

/-- The length of an alternative: of a function type if there is one, else of an atom. -/
def alternativeLength (text : Text) : Nat :=
  let function := functionLength text
  if function = 0 then atomLength text else function

/-- The length of all that follows the first alternative: further ones, each behind a bar, and
a question mark. -/
def tailLength (text : Text) : Nat :=
  match text with
  | '|' :: rest =>
      let alternative := alternativeLength rest
      if alternative = 0 then 0 else 1 + alternative + tailLength (rest.drop alternative)
  | '?' :: _ => 1
  | _ => 0
termination_by text.length
decreasing_by simp only [List.length_drop, List.length_cons]; omega

/-- The length of the type expression at the start of the text. -/
def length (text : Text) : Nat :=
  let first := alternativeLength text
  if first = 0 then 0 else first + tailLength (text.drop first)

/-- Reads the type expression at the start of the text. -/
def read? : Recogniser Text := fun text =>
  if length text = 0 then none else some (text.splitAt (length text))

end LuaReference.TypeExpr
