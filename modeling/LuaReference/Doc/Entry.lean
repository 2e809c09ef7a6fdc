import LuaReference.Doc.Basic
import LuaReference.Text.Blank

set_option autoImplicit false

/-! # Entries

An entry is what a comment says about a field, a parameter or a returned value, as it was
written. Finishing an entry trims its description, drops it when nothing is left, and reads the
mark that makes a type optional.
-/

namespace LuaReference

/-! ## Descriptions and types -/

/-- A description without the blanks around it; one that is blank is absent. -/
def cleanDescription (description : Option Text) : Option Text :=
  match description with
  | none => none
  | some text =>
      match Text.trim text with
      | [] => none
      | kept => some kept

/-- A description continued on a further line. -/
def continueDescription (description : Option Text) (line : Text) : Text :=
  match description with
  | none | some [] => line
  | some text => text ++ '\n' :: line

/-- A type without the question mark at its end, and whether there was one. -/
def splitOptional (type : Text) : Text × Bool :=
  if type.getLast? = some '?' then (type.dropLast, true) else (type, false)

/-! ## Entries -/

/-- What is said about a parameter. -/
structure ParamEntry where
  name : Text
  type : Text
  description : Option Text := none
deriving DecidableEq

/-- What is said about a returned value. -/
structure ReturnEntry where
  type : Text
  name : Option Text := none
  description : Option Text := none
deriving DecidableEq

/-- The field with its description continued on a further line. -/
def FieldDoc.addLine (field : FieldDoc) (line : Text) : FieldDoc :=
  { field with description := some (continueDescription field.description line) }

/-- The parameter with its description continued on a further line. -/
def ParamEntry.addLine (entry : ParamEntry) (line : Text) : ParamEntry :=
  { entry with description := some (continueDescription entry.description line) }

/-- The field as it is kept: its description cleaned. -/
def FieldDoc.finish (field : FieldDoc) : FieldDoc :=
  { field with description := cleanDescription field.description }

/-- The parameter an entry describes. -/
def ParamEntry.finish (entry : ParamEntry) : ParamDoc :=
  let (type, optional) := splitOptional entry.type
  ⟨entry.name, type, optional, cleanDescription entry.description⟩

/-- The returned value an entry describes. -/
def ReturnEntry.finish (entry : ReturnEntry) : ReturnDoc :=
  ⟨(splitOptional entry.type).1, entry.name.getD [], cleanDescription entry.description⟩

/-- The function as it is kept: its description cleaned. -/
def FunctionDoc.finish (function : FunctionDoc) : FunctionDoc :=
  { function with description := cleanDescription function.description }

/-- The class as it is kept: its description cleaned. -/
def ClassDoc.finish (doc : ClassDoc) : ClassDoc :=
  { doc with description := cleanDescription doc.description }

/-- The class with a new description, unless that is blank. -/
def ClassDoc.describe (doc : ClassDoc) (description : Option Text) : ClassDoc :=
  match cleanDescription description with
  | none => doc
  | some text => { doc with description := some text }

end LuaReference
