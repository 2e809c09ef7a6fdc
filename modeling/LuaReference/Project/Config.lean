import LuaReference.Project.Fault
import LuaReference.Json.Reader

set_option autoImplicit false

/-! # Project configurations

A project configuration maps the names of namespaces to lists of paths and path patterns. It is
a file with one JSON object; the order of its members is the order of the namespaces.
-/

namespace LuaReference

/-- The namespaces of a project in order, each with its entries. -/
abbrev Config := List (Text × List Text)

namespace Config

/-- The texts of an array of strings. -/
def texts? : Json → Option (List Text)
  | .array items => items.mapM fun
      | .string text => some text
      | _ => none
  | _ => none

/-- The configuration that a JSON value stands for. -/
def ofJson? : Json → Option Config
  | .object members => members.mapM fun (name, value) => (texts? value).map (name, ·)
  | _ => none

/-- The placeholders for halves of surrogate pairs in the names and entries of a text. -/
def row (text : Text) : Placeholders := Json.freeRow (text.map .char)

/-- The configuration in a text, `path` being the path of its file. -/
def ofText (path text : Text) : Except Fault Config :=
  match Json.read (row text) text with
  | .error error => .error (.config (.unreadable error) path)
  | .ok value =>
      match ofJson? value with
      | none => .error (.config .misshapen path)
      | some config => .ok config

/-- The configuration in the file that a path leads to. -/
def load (tree : FileTree) (path : Text) : Except Fault Config := do
  ofText path (← tree.readText path)

/-- The directory that the entries of a configuration are relative to: the one of its file. -/
def directory (tree : FileTree) (path : Text) : Text :=
  Path.parent (Path.normalize (Path.join tree.workingPath path))

end Config

end LuaReference
