import LuaReference.Tag.Basic
import LuaReference.Doc.Entry

set_option autoImplicit false

/-! # Comment blocks

A comment block is a run of documentation comments. Its tags declare a class, a type,
fields, parameters and returned values. A line of plain text continues the description of the
field or parameter that stands open; without one it goes to the general description. An
tag of another kind, or a line that is empty behind its mark, closes what stands open.
-/

namespace LuaReference

/-- The class or enum that a block declares. -/
structure ClassDecl where
  name : Text
  parent : Option Text
  isEnum : Bool
deriving DecidableEq

/-- The type that a block gives to the variable assigned behind it. -/
structure TypeDecl where
  type : Text
  description : Option Text
deriving DecidableEq

/-- What a comment block says. -/
structure Block where
  description : Option Text := none
  classDecl : Option ClassDecl := none
  typeDecl : Option TypeDecl := none
  fields : List FieldDoc := []
  params : List ParamEntry := []
  returns : List ReturnEntry := []
  nonStatic : Bool := false
deriving DecidableEq

namespace Block

/-- What plain text continues: the last field, the last parameter or the general
description. -/
inductive Target where
  | field
  | param
  | general
deriving DecidableEq

/-- The list with its last element changed. -/
def mapLast {α : Type} (change : α → α) : List α → List α
  | [] => []
  | [last] => [change last]
  | first :: rest => first :: mapLast change rest

/-- The block with a line added to its general description. -/
def appendGeneral (block : Block) (line : Text) : Block :=
  { block with description := some (continueDescription block.description line) }

/-- The block with a line of plain text added where it belongs. -/
def append (block : Block) (target : Target) (line : Text) : Block :=
  match target with
  | .field => { block with fields := mapLast (·.addLine line) block.fields }
  | .param => { block with params := mapLast (·.addLine line) block.params }
  | .general => block.appendGeneral line

/-- The block with a tag added, and what plain text behind it continues. -/
def addTag (block : Block) : Tag → Block × Target
  | .declaration isEnum name parent text =>
      let block := { block with classDecl := some ⟨name, parent, isEnum⟩ }
      match Text.trim text with
      | [] => (block, .general)
      | text => (block.appendGeneral text, .general)
  | .field _ name type text =>
      let description := if text.isEmpty then none else some text
      ({ block with fields := block.fields ++ [⟨name, type, false, description⟩] }, .field)
  | .type type description => ({ block with typeDecl := some ⟨type, description⟩ }, .general)
  | .param name type description =>
      ({ block with params := block.params ++ [⟨name, type, description⟩] }, .param)
  | .result type name description =>
      ({ block with returns := block.returns ++ [⟨type, name, description⟩] }, .general)
  | .nonStatic => ({ block with nonStatic := true }, .general)
  | .other => (block, .general)

/-- The block and its open target after one more comment line. -/
def addLine (state : Block × Target) (line : Text) : Block × Target :=
  match Tag.ofLine? line with
  | some tag => state.1.addTag tag
  | none =>
      match Tag.commentText line with
      | [] => (state.1, .general)
      | text => (state.1.append state.2 text, state.2)

/-- What a run of trimmed comment lines says. -/
def ofLines (lines : List Text) : Block := (lines.foldl addLine ({}, .general)).1

/-- Whether the block declares a class. -/
def isClass (block : Block) : Bool := block.classDecl.any (!·.isEnum)

/-- Whether the block declares an enum. -/
def isEnum (block : Block) : Bool := block.classDecl.any (·.isEnum)

/-- The first entry on the parameter of that name. -/
def findParam? (block : Block) (name : Text) : Option ParamEntry :=
  block.params.find? (·.name = name)

end Block

end LuaReference
