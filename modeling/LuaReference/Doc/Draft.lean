import LuaReference.Doc.Entry

set_option autoImplicit false

/-! # Drafts

A draft is a documentation value that may still lack its name or its type. Building it yields
the finished value or tells which required part is missing; of two missing parts the name is
told first.
-/

namespace LuaReference

/-- Why a draft cannot be built: the part that is missing. -/
inductive DraftError where
  | fieldName
  | fieldType (name : Text)
  | paramName
  | paramType (name : Text)
  | returnType
  | functionName
  | className
deriving DecidableEq

/-- The error as a sentence. -/
def DraftError.message : DraftError → Text
  | .fieldName => "Lua field must have a name".toList
  | .fieldType name => "Lua field '".toList ++ name ++ "' must have a type".toList
  | .paramName => "Lua parameter must have a name".toList
  | .paramType name => "Lua parameter '".toList ++ name ++ "' must have a type".toList
  | .returnType => "Lua return value must have a type".toList
  | .functionName => "Lua function must have a name".toList
  | .className => "Lua class must have a name".toList

/-- A field that may lack its name or type. -/
structure FieldDraft where
  name : Option Text := none
  type : Option Text := none
  isStatic : Bool := false
  description : Option Text := none
deriving DecidableEq

/-- A parameter that may lack its name or type. -/
structure ParamDraft where
  name : Option Text := none
  type : Option Text := none
  description : Option Text := none
deriving DecidableEq

/-- A returned value that may lack its type. -/
structure ReturnDraft where
  type : Option Text := none
  name : Option Text := none
  description : Option Text := none
deriving DecidableEq

/-- A function that may lack its name; its parameters and returned values are finished. -/
structure FunctionDraft where
  name : Option Text := none
  isStatic : Bool := true
  description : Option Text := none
  params : List ParamDoc := []
  returns : List ReturnDoc := []
deriving DecidableEq

/-- A class that may lack its name; its members are finished. -/
structure ClassDraft where
  name : Option Text := none
  description : Option Text := none
  fields : List FieldDoc := []
  functions : List FunctionDoc := []
deriving DecidableEq

/-- The field of a draft that lacks nothing. -/
def FieldDraft.build (draft : FieldDraft) : Except DraftError FieldDoc :=
  match draft.name, draft.type with
  | none, _ => .error .fieldName
  | some name, none => .error (.fieldType name)
  | some name, some type => .ok (FieldDoc.finish ⟨name, type, draft.isStatic, draft.description⟩)

/-- The parameter of a draft that lacks nothing. -/
def ParamDraft.build (draft : ParamDraft) : Except DraftError ParamDoc :=
  match draft.name, draft.type with
  | none, _ => .error .paramName
  | some name, none => .error (.paramType name)
  | some name, some type => .ok (ParamEntry.finish ⟨name, type, draft.description⟩)

/-- The returned value of a draft that lacks nothing. -/
def ReturnDraft.build (draft : ReturnDraft) : Except DraftError ReturnDoc :=
  match draft.type with
  | none => .error .returnType
  | some type => .ok (ReturnEntry.finish ⟨type, draft.name, draft.description⟩)

/-- The function of a draft that has a name. -/
def FunctionDraft.build (draft : FunctionDraft) : Except DraftError FunctionDoc :=
  match draft.name with
  | none => .error .functionName
  | some name => .ok (FunctionDoc.finish
      ⟨name, draft.isStatic, draft.description, draft.params, draft.returns⟩)

/-- The class of a draft that has a name. -/
def ClassDraft.build (draft : ClassDraft) : Except DraftError ClassDoc :=
  match draft.name with
  | none => .error .className
  | some name => .ok (ClassDoc.finish ⟨name, draft.description, draft.fields, draft.functions⟩)

/-- The draft of a finished function, which lacks nothing. -/
def FunctionDoc.draft (function : FunctionDoc) : FunctionDraft :=
  ⟨some function.name, function.isStatic, function.description, function.params,
    function.returns⟩

/-- The draft with a new description, unless that is blank. -/
def ClassDraft.describe (draft : ClassDraft) (description : Option Text) : ClassDraft :=
  match cleanDescription description with
  | none => draft
  | some text => { draft with description := some text }

/-! ## Drafts with drafts inside

The members of a function or a class are built first, in the order in which they are listed,
and the first one that lacks something decides the error. -/

/-- A function whose parameters and returned values are drafts too. -/
structure FunctionOutline where
  name : Option Text := none
  isStatic : Bool := true
  description : Option Text := none
  params : List ParamDraft := []
  returns : List ReturnDraft := []
deriving DecidableEq

/-- A class whose members are drafts too, with the descriptions given to it later on. -/
structure ClassOutline where
  name : Option Text := none
  description : Option Text := none
  laterDescriptions : List (Option Text) := []
  fields : List FieldDraft := []
  functions : List FunctionOutline := []
deriving DecidableEq

/-- The draft of an outline whose parameters and returned values lack nothing. -/
def FunctionOutline.draft (outline : FunctionOutline) : Except DraftError FunctionDraft := do
  let params ← outline.params.mapM ParamDraft.build
  let returns ← outline.returns.mapM ReturnDraft.build
  return ⟨outline.name, outline.isStatic, outline.description, params, returns⟩

/-- The function of an outline that lacks nothing. -/
def FunctionOutline.build (outline : FunctionOutline) : Except DraftError FunctionDoc := do
  (← outline.draft).build

/-- The class of an outline that lacks nothing. -/
def ClassOutline.build (outline : ClassOutline) : Except DraftError ClassDoc := do
  let fields ← outline.fields.mapM FieldDraft.build
  let functions ← outline.functions.mapM FunctionOutline.build
  let draft : ClassDraft := ⟨outline.name, outline.description, fields, functions⟩
  (outline.laterDescriptions.foldl ClassDraft.describe draft).build

end LuaReference
