import LuaReference.Tag.TypeExpr

set_option autoImplicit false

/-! # Tags

A tag is a documentation comment that begins with a keyword, such as
`---@param name type description`. The rules are tried in a fixed order and the first that fits
the start of the line decides; a line whose keyword is known but whose body does not fit its
rule still counts as some other tag.
-/

namespace LuaReference

/-- The mark every documentation comment begins with. -/
def docMarker : Text := "---".toList

/-- The mark every comment begins with. -/
def commentMarker : Text := "--".toList

/-- What a tag says. -/
inductive Tag where
  /-- A class, or an enum if `isEnum`, with what it extends and the text behind it. -/
  | declaration (isEnum : Bool) (name : Text) (parent : Option Text) (text : Text)
  /-- A field of the class that is being declared. -/
  | field (visibility : Option Text) (name type text : Text)
  /-- The type of the variable assigned on the next code line. -/
  | type (type : Text) (description : Option Text)
  /-- A parameter of the function on the next code line. -/
  | param (name type : Text) (description : Option Text)
  /-- A value returned by the function on the next code line. -/
  | result (type : Text) (name description : Option Text)
  /-- The function on the next code line is a method. -/
  | nonStatic
  /-- Any other keyword. -/
  | other
deriving DecidableEq

namespace Tag

/-! ## Parts of a line -/

/-- Reads all characters up to the next line feed. -/
def restOfLine (text : Text) : Text × Text :=
  (text.takeWhile (· != '\n'), text.dropWhile (· != '\n'))

/-- The text behind a keyword and the blanks that separate the two. -/
def afterKeyword? (keyword text : Text) : Option Text :=
  (keyword.isPrefixOf? text).bind Text.afterBlanks?

/-- A description at the start of a text whose first character is a blank already passed: the
blanks are skipped as far as a character of the same line is left to be the description. -/
def description? : Recogniser Text
  | [] => none
  | c :: rest =>
      match if isBlank c then description? rest else none with
      | some found => some found
      | none => if c = '\n' then none else some (restOfLine (c :: rest))

/-- An optional description, separated by blanks from what stands in front of it. -/
def descriptionPart (text : Text) : Option Text × Text :=
  match text with
  | [] => (none, [])
  | c :: rest =>
      match if isBlank c then description? rest else none with
      | some (description, rest) => (some description, rest)
      | none => (none, c :: rest)

/-- A name: one or more characters that are neither blanks nor colons. -/
def isNameChar (c : Char) : Bool := !isBlank c && c != ':'

/-- The class behind a colon that a declaration extends. -/
def parentPart (text : Text) : Option Text × Text :=
  match Text.skipBlanks text with
  | ':' :: rest =>
      match (Text.skipBlanks rest).takeWhile (!isBlank ·) with
      | [] => (none, text)
      | parent => (some parent, (Text.skipBlanks rest).dropWhile (!isBlank ·))
  | _ => (none, text)

/-! ## The rules -/

/-- The rule of classes and enums: a name, an optional parent behind a colon, and text. -/
def declaration? (keyword : Text) (isEnum : Bool) : Recogniser Tag := fun line => do
  let body ← afterKeyword? keyword line
  match body.takeWhile isNameChar with
  | [] => none
  | name =>
      let (parent, rest) := parentPart (body.dropWhile isNameChar)
      let (text, rest) := restOfLine (Text.skipBlanks rest)
      some (.declaration isEnum name parent text, rest)

/-- The visibilities that may stand in front of the name of a field. -/
def visibilities : List Text :=
  ["private".toList, "public".toList, "protected".toList, "package".toList]

/-- A field from its name on. -/
def fieldBody? (visibility : Option Text) : Recogniser Tag := fun body => do
  let (name, rest) ← Text.word? body
  let (expr, rest) ← TypeExpr.read? (← Text.afterBlanks? rest)
  let (text, rest) := restOfLine (Text.skipBlanks rest)
  some (.field visibility name expr text, rest)

/-- The rule of fields: a visibility is read as the name of the field where that is the only
reading that fits. -/
def field? : Recogniser Tag := fun line => do
  let body ← afterKeyword? "---@field".toList line
  let visible := visibilities.findSome? fun visibility => do
    fieldBody? (some visibility) (← afterKeyword? visibility body)
  visible <|> fieldBody? none body

/-- The rule of types. -/
def type? : Recogniser Tag := fun line => do
  let (expr, rest) ← TypeExpr.read? (← afterKeyword? "---@type".toList line)
  let (description, rest) := descriptionPart rest
  some (.type expr description, rest)

/-- The name of a parameter: a word, or three dots for all further parameters. -/
def paramName? : Recogniser Text := fun text =>
  Text.word? text <|> ("...".toList.isPrefixOf? text).map ("...".toList, ·)

/-- The rule of parameters. -/
def param? : Recogniser Tag := fun line => do
  let (name, rest) ← paramName? (← afterKeyword? "---@param".toList line)
  let (expr, rest) ← TypeExpr.read? (← Text.afterBlanks? rest)
  let (description, rest) := descriptionPart rest
  some (.param name expr description, rest)

/-- The name of a returned value, separated by blanks from its type. -/
def resultName (text : Text) : Option Text × Text :=
  match (Text.afterBlanks? text).bind Text.word? with
  | some (name, rest) => (some name, rest)
  | none => (none, text)

/-- The rule of returned values. -/
def result? : Recogniser Tag := fun line => do
  let (expr, rest) ← TypeExpr.read? (← afterKeyword? "---@return".toList line)
  let (name, rest) := resultName rest
  let (description, rest) := descriptionPart rest
  some (.result expr name description, rest)

/-- What follows a keyword that ends where the text goes on with no word character. -/
def afterWord? (keyword text : Text) : Option Text :=
  (keyword.isPrefixOf? text).bind fun rest => if Text.startsWord rest then none else some rest

/-- The rule of methods, in both spellings of its keyword. -/
def nonStatic? : Recogniser Tag := fun line =>
  (afterWord? "---@non-static".toList line <|> afterWord? "---@none-static".toList line).map
    (.nonStatic, ·)

/-- The rule of all other keywords, of which it takes the first character. -/
def other? : Recogniser Tag := fun line => do
  match Text.skipBlanks (← docMarker.isPrefixOf? line) with
  | '@' :: c :: rest => if isWord c then some (.other, rest) else none
  | _ => none

/-- Reads the tag at the start of a line, by the first rule that fits. -/
def read? : Recogniser Tag := fun line =>
  declaration? "---@class".toList false line <|> declaration? "---@enum".toList true line <|>
    field? line <|> type? line <|> param? line <|> result? line <|> nonStatic? line <|>
    other? line

/-- The tag on a line, or `none` for a line of plain text. -/
def ofLine? (line : Text) : Option Tag := (read? line).map Prod.fst

/-! ## Documentation comments -/

/-- The text behind the mark that a file holds declarations only. -/
def afterMeta? (line : Text) : Option Text := afterWord? "---@meta".toList line

/-- Whether a trimmed line is a documentation comment. -/
def isDocComment (line : Text) : Bool := docMarker.isPrefixOf line && (afterMeta? line).isNone

/-- The text of a documentation comment, without its mark and the blanks around it. -/
def commentText (line : Text) : Text := Text.trim ((docMarker.isPrefixOf? line).getD line)

end Tag

end LuaReference
