import LuaReference.Source.Code

set_option autoImplicit false

/-! # Declarations on a code line

What a line of code declares is read off its shape: a function header with an owner and a
parameter list, the path on the left of an assignment, or an entry of a table. The leftmost
place that has the shape counts.
-/

namespace LuaReference

/-- How a function is attached to its owner. -/
inductive Separator where
  | dot
  | colon
deriving DecidableEq

namespace Separator

/-- The character between an owner and the name of the function. -/
def mark : Separator → Char
  | .dot => '.'
  | .colon => ':'

end Separator

/-- The table a function belongs to. -/
structure Owner where
  /-- The words of the path to the table. -/
  path : List Text
  separator : Separator
deriving DecidableEq

/-- The words of a path joined by dots. -/
def dotted (path : List Text) : Text := Text.join ['.'] path

/-- The header of a function declaration. -/
structure FunctionHeader where
  owner : Option Owner
  name : Text
  /-- The text between the parentheses. -/
  params : Text
deriving DecidableEq

namespace Declaration

/-! ## Paths -/

/-- Reads the rest of a path inside of a word: what is left of that word, the further words,
each behind a dot, and the text behind the path. -/
def spanPath : Text → Text × List Text × Text
  | [] => ([], [], [])
  | c :: rest =>
      if isWord c then
        let (word, more, behind) := spanPath rest
        (c :: word, more, behind)
      else if c = '.' && Text.startsWord rest then
        let (word, more, behind) := spanPath rest
        ([], word :: more, behind)
      else ([], [], c :: rest)

/-- Reads the longest path, words joined by dots, at the start of a text. -/
def path? : Recogniser (List Text) := fun text =>
  if Text.startsWord text then
    let (word, more, behind) := spanPath text
    some (word :: more, behind)
  else none

/-! ## Function headers -/

/-- Reads the name of a function with its owner. A colon and a word behind the path make all
of the path the owner; else the last word of the path is the name. -/
def ownedName? : Recogniser (Option Owner × Text) := fun text => do
  let (path, rest) ← path? text
  let method := match rest with
    | ':' :: rest => Text.word? rest
    | _ => none
  match method with
  | some (name, rest) => some ((some ⟨path, .colon⟩, name), rest)
  | none =>
      let owner := match path.dropLast with
        | [] => none
        | words => some ⟨words, .dot⟩
      some ((owner, path.getLastD []), rest)

/-- Reads a parameter list: the text between two parentheses. -/
def params? : Recogniser Text
  | '(' :: text =>
      match text.dropWhile (· != ')') with
      | _ :: rest => some (text.takeWhile (· != ')'), rest)
      | [] => none
  | _ => none

/-- Reads a function header at the start of a text. -/
def header? : Recogniser FunctionHeader := fun text => do
  let body ← Tag.afterKeyword? "function".toList text
  let ((owner, name), rest) ← ownedName? body
  let (params, rest) ← params? (Text.skipBlanks rest)
  some (⟨owner, name, params⟩, rest)

/-- The names in a parameter list, separated by commas; a blank place names nothing. -/
def paramNames (params : Text) : List Text :=
  ((Text.splitAtEach ',' params).map Text.trim).filter (!·.isEmpty)

/-! ## Assignments -/

/-- Reads the path on the left of an assignment, and the equals sign, which no second one
follows. -/
def assignment? : Recogniser (List Text) := fun text => do
  let (path, rest) ← path? text
  match Text.skipBlanks rest with
  | '=' :: rest => if rest.head? = some '=' then none else some (path, rest)
  | _ => none

/-- Reads the name of a table entry, and the equals sign. -/
def entry? : Recogniser Text := fun text => do
  let (name, rest) ← Text.word? text
  match Text.skipBlanks rest with
  | '=' :: rest => some (name, rest)
  | _ => none

/-- What follows the word that makes a declaration local. -/
def afterLocal? (line : Text) : Option Text := Tag.afterKeyword? "local".toList line

/-- Whether a line declares something local. -/
def isLocal (line : Text) : Bool := (afterLocal? line).isSome

/-- The path that a line assigns to. -/
def target? (line : Text) : Option (List Text) := (search assignment? line).map Found.value

/-- The function header on a line. -/
def headerOf? (line : Text) : Option FunctionHeader := (search header? line).map Found.value

end Declaration

end LuaReference
