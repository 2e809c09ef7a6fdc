import LuaReference.Doc.Draft

set_option autoImplicit false

/-! # Registry

A registry collects the documentation of one source: the classes in the order in which they are
first mentioned, the functions and fields outside of classes, and the names declared local. It
turns into the documentation of one namespace.
-/

namespace LuaReference

/-- What is known about a source so far. -/
structure Registry where
  classes : List ClassDoc := []
  functions : List FunctionDraft := []
  fields : List FieldDoc := []
  locals : List Text := []
deriving DecidableEq

namespace Registry

/-- The classes with the one of that name changed; a class not known yet comes last. -/
def updateClass (name : Text) (change : ClassDoc → ClassDoc) : List ClassDoc → List ClassDoc
  | [] => [change ⟨name, none, [], []⟩]
  | doc :: rest =>
      if doc.name = name then change doc :: rest else doc :: updateClass name change rest

/-- The registry with the class of that name changed. -/
def onClass (registry : Registry) (name : Text) (change : ClassDoc → ClassDoc) : Registry :=
  { registry with classes := updateClass name change registry.classes }

/-- Mentions a class. -/
def mention (registry : Registry) (name : Text) : Registry := registry.onClass name id

/-- Describes a class, unless the description is blank. -/
def describe (registry : Registry) (name : Text) (description : Option Text) : Registry :=
  registry.onClass name (·.describe description)

/-- Adds fields to a class. -/
def addClassFields (registry : Registry) (name : Text) (fields : List FieldDoc) : Registry :=
  registry.onClass name fun doc => { doc with fields := doc.fields ++ fields }

/-- Adds a function to a class. -/
def addClassFunction (registry : Registry) (name : Text) (function : FunctionDoc) : Registry :=
  registry.onClass name fun doc => { doc with functions := doc.functions ++ [function] }

/-- Adds a function outside of classes. -/
def addFunction (registry : Registry) (function : FunctionDraft) : Registry :=
  { registry with functions := registry.functions ++ [function] }

/-- Adds a field outside of classes. -/
def addField (registry : Registry) (field : FieldDoc) : Registry :=
  { registry with fields := registry.fields ++ [field] }

/-- Records the name of a local variable. -/
def addLocal (registry : Registry) (name : Text) : Registry :=
  if name ∈ registry.locals then registry
  else { registry with locals := registry.locals ++ [name] }

/-- The class of that name. -/
def findClass? (registry : Registry) (name : Text) : Option ClassDoc :=
  registry.classes.find? (·.name = name)

/-- Whether a name belongs to a local variable that is not documented as a class. -/
def isHidden (registry : Registry) (name : Text) : Bool :=
  name ∈ registry.locals && (registry.findClass? name).isNone

/-- The documentation of the namespace with that name, unless a function lacks its name. -/
def flatten (registry : Registry) (namespaceName : Text) : Except DraftError Doc := do
  let functions ← registry.functions.mapM FunctionDraft.build
  return ⟨[⟨namespaceName, registry.classes, functions, registry.fields⟩]⟩

end Registry

end LuaReference
