import LuaReference.Service.Request
import LuaReference.Service.Target
import LuaReference.Doc.Export
import LuaReference.Json.Number
import LuaReference.Project.Sources
import LuaReference.Text.Halves
import LuaReference.Text.Quoted

set_option autoImplicit false

/-! # The service

The service answers requests: whether it runs, for the documentation of one source, and for the
documentation of the sources of a project. An answer is JSON without spaces in UTF-8, so one
with a number that is not finite or with half of a surrogate pair in it cannot be given.
-/

namespace LuaReference.Service

/-! ## Answers -/

/-- The answer to a request. -/
structure Response where
  status : Nat
  body : Json

/-- The answer as it is given: without its body if only its head was asked for. -/
structure Reply where
  status : Nat
  body : Option Json

/-- The answer that tells what is wrong. -/
def failed (status : Nat) (detail : Text) : Response :=
  ⟨status, .object [("detail".toList, .string detail)]⟩

/-- A step of a location as JSON. Only here halves of surrogate pairs are replaced. -/
def Step.toJson (row : Placeholders) : Step → Json
  | .key name => .string (row.replaced name)
  | .index n => .number (Text.ofNat n)

/-- The mark of internal names. -/
def internalMark : Text := "_sa".toList

mutual

/-- A value without the members that have internal names. -/
def withoutInternal : Json → Json
  | .array items => .array (withoutInternalItems items)
  | .object members => .object (withoutInternalMembers members)
  | value => value

/-- Some values without the members that have internal names. -/
def withoutInternalItems : List Json → List Json
  | [] => []
  | value :: rest => withoutInternal value :: withoutInternalItems rest

/-- Members without those that have internal names. -/
def withoutInternalMembers : List (Text × Json) → List (Text × Json)
  | [] => []
  | (name, value) :: rest =>
      if internalMark.isPrefixOf name then withoutInternalMembers rest
      else (name, withoutInternal value) :: withoutInternalMembers rest

end

/-- A problem as JSON. -/
def Problem.toJson (row : Placeholders) (problem : Problem) : Json :=
  .object [("type".toList, .string problem.violation.name),
    ("loc".toList, .array (problem.location.map (Step.toJson row))),
    ("msg".toList, .string problem.violation.message), ("input".toList, withoutInternal problem.input)]

/-- The answer to a body that cannot be used. -/
def refused (row : Placeholders) : BodyError → Response
  | .unreadable => failed 400 "There was an error parsing the body".toList
  | .refused problems =>
      ⟨422, .object [("detail".toList, .array (problems.map (Problem.toJson row)))]⟩

/-- The answer with documentation. -/
def documented : Except DraftError Doc → Response
  | .ok doc => ⟨200, doc.toJson⟩
  | .error error => failed 422 ("Invalid documentation: ".toList ++ error.message)

/-! ## What is offered -/

/-- Answers the question whether the service runs. -/
def health : Response := ⟨200, .object [("ok".toList, .bool true)]⟩

/-- Documents one source. -/
def documentSource (body : Option Text) : Response :=
  match readBody source body with
  | .error error => refused (rowOf body) error
  | .ok file => documented (parse file.code defaultNamespace)

/-- Documents the namespaces of a project, of which there has to be one. -/
def documentProject (body : Option Text) : Response :=
  match readBody projectSources body with
  | .error error => refused (rowOf body) error
  | .ok [] => failed 400 "Provide at least one namespace.".toList
  | .ok namespaces =>
      documented (documentNamespaces (namespaces.map fun (name, files) =>
        (name, files.map SourceFile.code)))

/-- What the service offers: the path, the method and the answer to a body. -/
def routes : List (Text × Text × (Option Text → Response)) :=
  [("/health".toList, "GET".toList, fun _ => health),
    ("/parse".toList, "POST".toList, documentSource),
    ("/parse/project".toList, "POST".toList, documentProject)]

/-- The path of what is offered that a path names: slashes at the end do not count, nor does a
line feed in front of them. -/
def routePath (path : Text) : Text :=
  let kept := Path.dropTrailingSlashes path
  if kept.getLast? = some '\n' then kept.dropLast else kept

/-- The answer to a request with a method in upper case. -/
def answer (method target : Text) (body : Option Text) : Response :=
  match routes.lookup (routePath (targetPath target)) with
  | none => failed 404 "Not Found".toList
  | some (offered, respond) =>
      if offered = method then respond body else failed 405 "Method Not Allowed".toList

/-! ## Answers that cannot be given -/

/-- Why a request gets no answer. -/
inductive Failure where
  /-- A control character stands in the target behind `position` others. -/
  | control (c : Char) (position : Nat)
  | notFinite
  /-- Halves of surrogate pairs stand in the answer. -/
  | halves (halves : Halves)
deriving DecidableEq

namespace Failure

/-- The failure as a message. -/
def message : Failure → Text
  | .control c position =>
      "Invalid non-printable ASCII character in URL, ".toList ++ Text.quoted [c] ++
        " at position ".toList ++ Text.ofNat position ++ ['.']
  | .notFinite => "Out of range float values are not JSON compliant".toList
  | .halves found => found.message

end Failure

/-- Answers a request, or tells why it gets no answer. The case of the method does not
count. -/
def respond (method target : Text) (body : Option Text) : Except Failure Reply :=
  let method := method.map Char.toUpper
  match findControl? target with
  | some (c, position) => .error (.control c position)
  | none =>
      let response := answer method target body
      if !response.body.isFinite then .error .notFinite
      else match (rowOf body).findHalves? 0 (response.body.write .dense) with
        | some halves => .error (.halves halves)
        | none =>
            .ok ⟨response.status, if method = "HEAD".toList then none else some response.body⟩

end LuaReference.Service
