import LuaReference.Doc.Draft
import LuaReference.Files.Tree
import LuaReference.Json.Reader
import LuaReference.Text.Halves

set_option autoImplicit false

/-! # Faults

What stops the documentation of a file or a project: a path that cannot be used, a file that is
not UTF-8, a configuration that cannot be used, a value that lacks a required part, or a name that
has no spelling in UTF-8.
-/

namespace LuaReference

/-- What is wrong with a project configuration. -/
inductive ConfigFault where
  /-- It cannot be read as JSON. -/
  | unreadable (error : Json.ReadError)
  /-- It is JSON of another shape. -/
  | misshapen
deriving DecidableEq

/-- Why a file or a project cannot be documented. -/
inductive Fault where
  | unusable (error : PathError) (path : Text)
  | encoding (path : Text)
  | config (fault : ConfigFault) (path : Text)
  | draft (error : DraftError)
  /-- Halves of surrogate pairs stand in the text of the documentation. -/
  | halves (halves : Halves)
deriving DecidableEq

namespace Fault

/-- The fault as a message. -/
def message : Fault → Text
  | .unusable error path => error.message path
  | .encoding path => "Not UTF-8: ".toList ++ Text.quoted path
  | .config (.unreadable .malformed) path => "Invalid project config ".toList ++ path
  | .config (.unreadable error) _ => error.message
  | .config .misshapen path =>
      "Project config ".toList ++ path ++ " must map namespace names to lists of paths".toList
  | .draft error => error.message
  | .halves found => found.message

end Fault

/-- The text of the file that a path leads to. -/
def FileTree.readText (tree : FileTree) (path : Text) : Except Fault Text :=
  match tree.readBytes path with
  | .error error => .error (.unusable error path)
  | .ok bytes =>
      match Text.ofFile? bytes with
      | none => .error (.encoding path)
      | some text => .ok text

end LuaReference
