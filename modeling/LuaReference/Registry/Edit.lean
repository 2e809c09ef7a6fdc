import LuaReference.Registry.Basic

set_option autoImplicit false

/-! # Edits of a registry

An edit adds a value that may lack a required part. A class is mentioned before the value that
is meant for it is built, so an edit that fails has the effect of mentioning the class alone.
-/

namespace LuaReference

namespace Registry

/-- One operation on a registry. -/
inductive Edit where
  | mention (name : Text)
  | describe (name : Text) (description : Option Text)
  | classField (name : Text) (field : FieldDraft)
  | classFunction (name : Text) (function : FunctionOutline)
  | function (function : FunctionOutline)
  | field (field : FieldDraft)
  | recordLocal (name : Text)
deriving DecidableEq

/-- The result of building a value: the registry with the value, or the registry without it
and the error. -/
def settle {α : Type} (without : Registry) (built : Except DraftError α) (add : α → Registry) :
    Registry × Option DraftError :=
  match built with
  | .ok value => (add value, none)
  | .error error => (without, some error)

/-- The registry after an edit, and why the edit failed if it did. -/
def edit (registry : Registry) : Edit → Registry × Option DraftError
  | .mention name => (registry.mention name, none)
  | .describe name description => (registry.describe name description, none)
  | .classField name field =>
      settle (registry.mention name) field.build (registry.addClassFields name [·])
  | .classFunction name function =>
      settle (registry.mention name) function.build (registry.addClassFunction name)
  | .function function => settle registry function.draft registry.addFunction
  | .field field => settle registry field.build registry.addField
  | .recordLocal name => (registry.addLocal name, none)

end Registry

end LuaReference
