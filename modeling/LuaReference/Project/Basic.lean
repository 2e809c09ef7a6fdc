import LuaReference.Project.Config
import LuaReference.Project.Resolve
import LuaReference.Project.Sources

set_option autoImplicit false

/-! # Documenting a project

A project is documented namespace by namespace: the entries of the namespace are resolved, the
files are read and their documentation is merged. What is noted about the entries is kept also
when a fault ends the work.
-/

namespace LuaReference

/-- The documentation of a project or the fault that prevents it, and what was noted on the
way. -/
structure ProjectReport where
  notices : List Notice := []
  result : Except Fault Doc

namespace ProjectReport

/-- The documentation of a source, with a missing part as a fault. -/
def parseText (name code : Text) : Except Fault Doc := (parse code name).mapError .draft

/-- The documentation of the namespace with that name from files. -/
def documentFiles (tree : FileTree) (name : Text) (files : List Text) :
    Except Fault NamespaceDoc := do
  return mergeDocs name (← files.mapM fun path => do parseText name (← tree.readText path))

/-- The report with the documentation of one more namespace in front. -/
def addNamespace (notices : List Notice) (doc : NamespaceDoc) (report : ProjectReport) :
    ProjectReport where
  notices := notices ++ report.notices
  result := report.result.map fun rest => ⟨doc :: rest.namespaces⟩

/-- Documents the namespaces of a configuration, whose entries are relative to `directory`. -/
def ofConfig (tree : FileTree) (directory : Text) : Config → ProjectReport
  | [] => { result := .ok ⟨[]⟩ }
  | (name, entries) :: rest =>
      let resolution := Resolution.ofEntries tree directory entries
      match documentFiles tree name resolution.files with
      | .error fault => ⟨resolution.notices, .error fault⟩
      | .ok doc => (ofConfig tree directory rest).addNamespace resolution.notices doc

/-- Documents the project whose configuration is at a path. -/
def ofPath (tree : FileTree) (path : Text) : ProjectReport :=
  match Config.load tree path with
  | .error fault => { result := .error fault }
  | .ok config => ofConfig tree (Config.directory tree path) config

end ProjectReport

end LuaReference
