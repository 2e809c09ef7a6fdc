import LuaReference.Json.Reader
import LuaReference.Text.Encoding

set_option autoImplicit false

/-! # Bodies of requests

The body of a request is a JSON value of a known shape. Where it has another shape, each
violation is told with its kind, its location and what stands there, in the order in which the
parts are listed.
-/

namespace LuaReference.Service

/-- A step of a location inside of a body. -/
inductive Step where
  | key (name : Text)
  | index (n : Nat)
deriving DecidableEq

/-- What is wrong at a location. -/
inductive Violation where
  | missing
  | notText
  | notMapping
  | notList
  | notObject
  | notJson
deriving DecidableEq

/-- The name of a violation. -/
def Violation.name : Violation → Text
  | .missing => "missing".toList
  | .notText => "string_type".toList
  | .notMapping => "dict_type".toList
  | .notList => "list_type".toList
  | .notObject => "model_attributes_type".toList
  | .notJson => "json_invalid".toList

/-- What a violation means. -/
def Violation.message : Violation → Text
  | .missing => "Field required".toList
  | .notText => "Input should be a valid string".toList
  | .notMapping => "Input should be a valid dictionary".toList
  | .notList => "Input should be a valid list".toList
  | .notObject => "Input should be a valid dictionary or object to extract fields from".toList
  | .notJson => "JSON decode error".toList

/-- A violation at a location of a body, with the value that stands there. -/
structure Problem where
  violation : Violation
  location : List Step
  input : Json

/-- A value that was read, or all problems in its place. -/
inductive Checked (α : Type) where
  | valid (value : α)
  | refused (problems : List Problem)

namespace Checked

variable {α β γ : Type}

/-- The value changed. -/
def map (f : α → β) : Checked α → Checked β
  | .valid value => .valid (f value)
  | .refused problems => .refused problems

/-- Two values made into one; the problems of both are told in order. -/
def both (f : α → β → γ) : Checked α → Checked β → Checked γ
  | .valid a, .valid b => .valid (f a b)
  | .valid _, .refused problems => .refused problems
  | .refused problems, .valid _ => .refused problems
  | .refused first, .refused second => .refused (first ++ second)

/-- All values of a list. -/
def all : List (Checked α) → Checked (List α)
  | [] => .valid []
  | first :: rest => both List.cons first (all rest)

end Checked

/-- Checks a JSON value that stands at a location. -/
abbrev Check (α : Type) := List Step → Json → Checked α

/-- A problem with a value at a location. -/
def refuse {α : Type} (violation : Violation) (location : List Step) (input : Json) : Checked α :=
  .refused [⟨violation, location, input⟩]

/-- A text. -/
def text : Check Text
  | _, .string value => .valid value
  | location, value => refuse .notText location value

/-- A text or null. -/
def nullableText : Check (Option Text)
  | _, .null => .valid none
  | location, value => (text location value).map some

/-- A list of values that pass a check. -/
def list {α : Type} (check : Check α) : Check (List α)
  | location, .array items =>
      .all (items.mapIdx fun i item => check (location ++ [.index i]) item)
  | location, value => refuse .notList location value

/-- A mapping from names to values that pass a check. -/
def mapping {α : Type} (check : Check α) : Check (List (Text × α))
  | location, .object members =>
      .all (members.map fun (name, value) =>
        (check (location ++ [.key name]) value).map (name, ·))
  | location, value => refuse .notMapping location value

/-- A member that an object has to have. -/
def required {α : Type} (name : Text) (check : Check α) (location : List Step)
    (members : List (Text × Json)) : Checked α :=
  match members.lookup name with
  | none => refuse .missing (location ++ [.key name]) (.object members)
  | some value => check (location ++ [.key name]) value

/-- A member that an object may have. -/
def optional {α : Type} (name : Text) (check : Check (Option α)) (location : List Step)
    (members : List (Text × Json)) : Checked (Option α) :=
  match members.lookup name with
  | none => .valid none
  | some value => check (location ++ [.key name]) value

/-- A source with the name of its file. -/
structure SourceFile where
  filename : Option Text
  code : Text
deriving DecidableEq

/-- The request to document one source. -/
def source : Check SourceFile
  | location, .object members =>
      .both (fun code filename => ⟨filename, code⟩)
        (required "code".toList text location members)
        (optional "filename".toList nullableText location members)
  | location, value => refuse .notObject location value

/-- One source of a project, whose file has to have a name. -/
def projectSource : Check SourceFile
  | location, .object members =>
      .both (fun filename code => ⟨some filename, code⟩)
        (required "filename".toList text location members)
        (required "code".toList text location members)
  | location, value => refuse .notObject location value

/-- The request to document the namespaces of a project. -/
def projectSources : Check (List (Text × List SourceFile))
  | location, .object members =>
      required "namespaces".toList (mapping (list projectSource)) location members
  | location, value => refuse .notObject location value

/-- Why a body cannot be used. -/
inductive BodyError where
  /-- It cannot be read, for another reason than that it is not JSON. -/
  | unreadable
  | refused (problems : List Problem)

/-- What a body spells, or `none` when its bytes spell nothing. -/
def unitsOf? (body : Option Text) : Option (List CodeUnit) :=
  let bytes := Text.toUtf8 (body.getD [])
  (Encoding.detect bytes).decode? bytes

/-- The placeholders for halves of surrogate pairs in a body. -/
def rowOf (body : Option Text) : Placeholders := Json.freeRow ((unitsOf? body).getD [])

/-- The value of a body that passes a check. -/
def readBody {α : Type} (check : Check α) (body : Option Text) : Except BodyError α :=
  let root := [Step.key "body".toList]
  let refused (violation : Violation) (input : Json) : Except BodyError α :=
    .error (.refused [⟨violation, root, input⟩])
  if (body.getD []).isEmpty then refused .missing .null
  else match unitsOf? body with
    | none => .error .unreadable
    | some units =>
        match Json.read (rowOf body) ((rowOf body).text units) with
        | .error .malformed => refused .notJson (.object [])
        | .error _ => .error .unreadable
        | .ok value =>
            match check root value with
            | .refused problems => .error (.refused problems)
            | .valid value => .ok value

end LuaReference.Service
