import LuaReference.Reader.Basic
import LuaReference.Doc.Merge

set_option autoImplicit false

/-! # Documentation of several sources

The sources of a namespace are read one by one, each for itself, and their documentation is
merged in their order.
-/

namespace LuaReference

/-- The documentation of the namespace with that name from its sources. -/
def documentSources (name : Text) (sources : List Text) : Except DraftError NamespaceDoc := do
  return mergeDocs name (← sources.mapM (parse · name))

/-- The documentation of namespaces from their names and sources. -/
def documentNamespaces (namespaces : List (Text × List Text)) : Except DraftError Doc := do
  return ⟨← namespaces.mapM fun (name, sources) => documentSources name sources⟩

end LuaReference
