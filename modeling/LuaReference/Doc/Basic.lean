import LuaReference.Text.Basic

set_option autoImplicit false

/-! # Documentation

The finished documentation of an API: namespaces with their classes, functions and fields. An
absent description is `none`, and a type is free text.
-/

namespace LuaReference

/-- A documented field of a class or a namespace. -/
structure FieldDoc where
  name : Text
  type : Text
  isStatic : Bool := false
  description : Option Text := none
deriving DecidableEq

/-- A documented parameter; its type is written without the mark that makes it optional. -/
structure ParamDoc where
  name : Text
  type : Text
  optional : Bool := false
  description : Option Text := none
deriving DecidableEq

/-- A documented returned value; its name may be empty. -/
structure ReturnDoc where
  type : Text
  name : Text := []
  description : Option Text := none
deriving DecidableEq

/-- A documented function, static unless it is called on an instance. -/
structure FunctionDoc where
  name : Text
  isStatic : Bool := true
  description : Option Text := none
  params : List ParamDoc := []
  returns : List ReturnDoc := []
deriving DecidableEq

/-- A documented class. -/
structure ClassDoc where
  name : Text
  description : Option Text := none
  fields : List FieldDoc := []
  functions : List FunctionDoc := []
deriving DecidableEq

/-- A documented namespace. -/
structure NamespaceDoc where
  name : Text
  classes : List ClassDoc := []
  functions : List FunctionDoc := []
  fields : List FieldDoc := []
deriving DecidableEq

/-- The documentation of an API. -/
structure Doc where
  namespaces : List NamespaceDoc := []
deriving DecidableEq

end LuaReference
