import LuaReference.Doc.Basic
import LuaReference.Json.Writer
import LuaReference.Text.Halves

set_option autoImplicit false

/-! # Documentation as JSON

Each part of the documentation becomes an object with all of its members, in a fixed order; an
absent description becomes null. The name of a namespace may hold halves of surrogate pairs, and
then the text cannot be spelled in UTF-8.
-/

namespace LuaReference

/-- A text member. -/
def textMember (name : String) (value : Text) : Text × Json := (name.toList, .string value)

/-- A member that is true or false. -/
def flagMember (name : String) (value : Bool) : Text × Json := (name.toList, .bool value)

/-- A member with a list. -/
def listMember {α : Type} (name : String) (encode : α → Json) (values : List α) : Text × Json :=
  (name.toList, .array (values.map encode))

/-- The member with a description. -/
def descriptionMember (description : Option Text) : Text × Json :=
  ("description".toList, .ofOption description)

/-- A field as JSON. -/
def FieldDoc.toJson (field : FieldDoc) : Json :=
  .object [textMember "name" field.name, textMember "type" field.type,
    flagMember "isStatic" field.isStatic, descriptionMember field.description]

/-- A parameter as JSON. -/
def ParamDoc.toJson (param : ParamDoc) : Json :=
  .object [textMember "name" param.name, textMember "type" param.type,
    flagMember "optional" param.optional, descriptionMember param.description]

/-- A returned value as JSON. -/
def ReturnDoc.toJson (value : ReturnDoc) : Json :=
  .object [textMember "type" value.type, textMember "name" value.name,
    descriptionMember value.description]

/-- A function as JSON. -/
def FunctionDoc.toJson (function : FunctionDoc) : Json :=
  .object [textMember "name" function.name, flagMember "isStatic" function.isStatic,
    descriptionMember function.description,
    listMember "parameters" ParamDoc.toJson function.params,
    listMember "returns" ReturnDoc.toJson function.returns]

/-- A class as JSON. -/
def ClassDoc.toJson (doc : ClassDoc) : Json :=
  .object [textMember "name" doc.name, descriptionMember doc.description,
    listMember "fields" FieldDoc.toJson doc.fields,
    listMember "functions" FunctionDoc.toJson doc.functions]

/-- A namespace as JSON. -/
def NamespaceDoc.toJson (doc : NamespaceDoc) : Json :=
  .object [textMember "name" doc.name, listMember "classes" ClassDoc.toJson doc.classes,
    listMember "functions" FunctionDoc.toJson doc.functions,
    listMember "fields" FieldDoc.toJson doc.fields]

/-- Documentation as JSON. -/
def Doc.toJson (doc : Doc) : Json :=
  .object [listMember "namespaces" NamespaceDoc.toJson doc.namespaces]

/-- The text of documentation in a layout. -/
def Doc.export (doc : Doc) (indent : Option Int) : Text :=
  doc.toJson.write (.ofIndent indent)

/-! ## Halves of surrogate pairs -/

/-- Whether half of a surrogate pair stands in the name of a namespace. -/
def Doc.holdsHalf (row : Placeholders) (doc : Doc) : Bool :=
  doc.namespaces.any fun space => row.occurIn space.name

/-- The documentation with other placeholders in the names of its namespaces. -/
def Doc.respell (row other : Placeholders) (doc : Doc) : Doc :=
  ⟨doc.namespaces.map fun space => { space with name := row.respell other space.name }⟩

/-- The first halves of surrogate pairs in the text of documentation. The other parts of the
documentation may hold characters of the row, so they are looked for with a row that has none of
the text. -/
def Doc.halves? (row : Placeholders) (indent : Option Int) (doc : Doc) : Option Halves :=
  if doc.holdsHalf row then
    let free := Placeholders.avoiding ((doc.export indent).map Char.toNat)
    free.findHalves? 0 ((doc.respell row free).export indent)
  else none

end LuaReference
