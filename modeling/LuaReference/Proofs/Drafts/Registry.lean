import LuaReference.Proofs.Doc.NormalForm
import LuaReference.Proofs.Results
import LuaReference.Registry.Basic

set_option autoImplicit false

/-! # Registries of drafts

In a registry of drafts the classes are drafts as well: each is kept under a name that it may lack,
and it is built only when the registry turns into documentation, which fails if one of them is
nameless. A registry of drafts agrees with a registry of finished classes as long as its drafts
build what the other has (`RegistryDraft.Agrees`). Every change keeps them in agreement, and so does
the documentation in the end, as far as the descriptions are clean (`Agrees.flatten`).
-/

namespace LuaReference

/-- What is known about a source so far, in drafts. -/
structure RegistryDraft where
  classes : List ClassDraft := []
  functions : List FunctionDraft := []
  fields : List FieldDoc := []
  locals : List Text := []
deriving DecidableEq

namespace RegistryDraft

/-- The classes with the one of that name changed; a class not known yet comes last. -/
def updateClass (name : Option Text) (change : ClassDraft → ClassDraft) :
    List ClassDraft → List ClassDraft
  | [] => [change { name }]
  | draft :: rest =>
      if draft.name = name then change draft :: rest else draft :: updateClass name change rest

/-- The registry with the class of that name changed. -/
def onClass (registry : RegistryDraft) (name : Option Text) (change : ClassDraft → ClassDraft) :
    RegistryDraft :=
  { registry with classes := updateClass name change registry.classes }

/-- Describes a class, unless the description is blank. -/
def describe (registry : RegistryDraft) (name : Option Text) (description : Option Text) :
    RegistryDraft :=
  registry.onClass name (·.describe description)

/-- Adds fields to a class. -/
def addClassFields (registry : RegistryDraft) (name : Option Text) (fields : List FieldDoc) :
    RegistryDraft :=
  registry.onClass name fun draft => { draft with fields := draft.fields ++ fields }

/-- Adds a function to a class. -/
def addClassFunction (registry : RegistryDraft) (name : Option Text) (function : FunctionDoc) :
    RegistryDraft :=
  registry.onClass name fun draft => { draft with functions := draft.functions ++ [function] }

/-- Adds a function outside of classes. -/
def addFunction (registry : RegistryDraft) (function : FunctionDraft) : RegistryDraft :=
  { registry with functions := registry.functions ++ [function] }

/-- Adds a field outside of classes. -/
def addField (registry : RegistryDraft) (field : FieldDoc) : RegistryDraft :=
  { registry with fields := registry.fields ++ [field] }

/-- Records the name of a local variable. -/
def addLocal (registry : RegistryDraft) (name : Text) : RegistryDraft :=
  if registry.locals.contains name then registry
  else { registry with locals := registry.locals ++ [name] }

/-- Whether a name belongs to a local variable that is not documented as a class. -/
def isHidden (registry : RegistryDraft) (name : Text) : Bool :=
  registry.locals.contains name && (registry.classes.find? (·.name = some name)).isNone

/-- The documentation of the namespace with that name, unless something lacks its name. The
functions are built before the classes. -/
def flatten (registry : RegistryDraft) (namespaceName : Text) : Except DraftError Doc := do
  let functions ← registry.functions.mapM FunctionDraft.build
  let classes ← registry.classes.mapM ClassDraft.build
  return ⟨[⟨namespaceName, classes, functions, registry.fields⟩]⟩

end RegistryDraft

/-! ## Classes as drafts -/

/-- The draft of a class. -/
def ClassDoc.draft (doc : ClassDoc) : ClassDraft :=
  ⟨some doc.name, doc.description, doc.fields, doc.functions⟩

@[simp] theorem ClassDoc.describe_draft (doc : ClassDoc) (description : Option Text) :
    doc.draft.describe description = (doc.describe description).draft := by
  rw [ClassDraft.describe, ClassDoc.describe]
  cases cleanDescription description <;> rfl

/-- A class whose description is clean is what its draft builds. -/
theorem ClassDoc.IsNormal.build_draft {doc : ClassDoc} (h : doc.IsNormal) :
    doc.draft.build = .ok doc := by
  have hclean := h.description.cleanDescription_eq
  simp only [ClassDoc.draft, ClassDraft.build, ClassDoc.finish, hclean]

/-! ## Agreement -/

namespace RegistryDraft

/-- A registry of drafts that builds what another registry has. Functions outside of classes are
drafts in both, and it is what they build that has to be the same. -/
structure Agrees (draft : RegistryDraft) (registry : Registry) : Prop where
  classes : draft.classes = registry.classes.map ClassDoc.draft
  functions : draft.functions.map FunctionDraft.build = registry.functions.map FunctionDraft.build
  fields : draft.fields = registry.fields
  locals : draft.locals = registry.locals

theorem updateClass_draft {name : Text} {change : ClassDoc → ClassDoc}
    {change' : ClassDraft → ClassDraft} (h : ∀ doc, change' doc.draft = (change doc).draft)
    (classes : List ClassDoc) :
    updateClass (some name) change' (classes.map ClassDoc.draft) =
      (Registry.updateClass name change classes).map ClassDoc.draft := by
  induction classes with
  | nil =>
      rw [Registry.updateClass, List.map_singleton, ← h]
      rfl
  | cons doc rest ih =>
      have hname : doc.draft.name = some name ↔ doc.name = name := Option.some_inj
      rw [List.map_cons, updateClass, Registry.updateClass, ih]
      simp only [hname]
      split
      · rw [List.map_cons, h]
      · rw [List.map_cons]

namespace Agrees

variable {draft : RegistryDraft} {registry : Registry}

theorem onClass (h : draft.Agrees registry) (name : Text) {change : ClassDoc → ClassDoc}
    {change' : ClassDraft → ClassDraft} (hc : ∀ doc, change' doc.draft = (change doc).draft) :
    (draft.onClass (some name) change').Agrees (registry.onClass name change) where
  classes := by
    rw [RegistryDraft.onClass, h.classes, updateClass_draft hc]
    rfl
  functions := h.functions
  fields := h.fields
  locals := h.locals

theorem describe (h : draft.Agrees registry) (name : Text) (description : Option Text) :
    (draft.describe (some name) description).Agrees (registry.describe name description) :=
  h.onClass name fun doc => doc.describe_draft description

theorem addClassFields (h : draft.Agrees registry) (name : Text) (fields : List FieldDoc) :
    (draft.addClassFields (some name) fields).Agrees (registry.addClassFields name fields) :=
  h.onClass name fun _ => rfl

theorem addClassFunction (h : draft.Agrees registry) (name : Text) (function : FunctionDoc) :
    (draft.addClassFunction (some name) function).Agrees
      (registry.addClassFunction name function) :=
  h.onClass name fun _ => rfl

theorem addFunction (h : draft.Agrees registry) {function function' : FunctionDraft}
    (hf : function'.build = function.build) :
    (draft.addFunction function').Agrees (registry.addFunction function) where
  classes := h.classes
  functions := by
    simp only [RegistryDraft.addFunction, Registry.addFunction, List.map_append, h.functions, hf,
      List.map_cons]
  fields := h.fields
  locals := h.locals

theorem addField (h : draft.Agrees registry) (field : FieldDoc) :
    (draft.addField field).Agrees (registry.addField field) where
  classes := h.classes
  functions := h.functions
  fields := congrArg (· ++ [field]) h.fields
  locals := h.locals

theorem addLocal (h : draft.Agrees registry) (name : Text) :
    (draft.addLocal name).Agrees (registry.addLocal name) := by
  rw [RegistryDraft.addLocal, Registry.addLocal, h.locals]
  simp only [List.contains_iff_mem]
  split
  · exact h
  · exact ⟨h.classes, h.functions, h.fields, rfl⟩

/-- Both hide the same names. -/
theorem isHidden (h : draft.Agrees registry) (name : Text) :
    draft.isHidden name = registry.isHidden name := by
  have hname : (fun doc : ClassDoc => decide (doc.draft.name = some name)) =
      fun doc => decide (doc.name = name) := by
    funext doc
    simp [ClassDoc.draft]
  rw [RegistryDraft.isHidden, Registry.isHidden, Registry.findClass?, h.locals, h.classes,
    List.find?_map, Option.isNone_map]
  simp only [List.contains_eq_mem, Function.comp_def, hname]

/-- **Both turn into the same documentation**, provided that the descriptions of the classes are
clean, because a draft cleans its description when it is built. -/
theorem flatten (h : draft.Agrees registry) (hn : ∀ doc ∈ registry.classes, doc.IsNormal)
    (namespaceName : Text) : draft.flatten namespaceName = registry.flatten namespaceName := by
  have hclasses : draft.classes.mapM ClassDraft.build = .ok registry.classes := by
    rw [h.classes, mapM_map_eq_ok fun doc hdoc => (hn doc hdoc).build_draft, List.map_id']
  have hfunctions : draft.functions.mapM FunctionDraft.build =
      registry.functions.mapM FunctionDraft.build := mapM_congr_map h.functions
  rw [RegistryDraft.flatten, Registry.flatten, hfunctions, hclasses, h.fields]
  rfl

end Agrees

end RegistryDraft

end LuaReference
