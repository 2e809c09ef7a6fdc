import LuaReference.Doc.Basic

set_option autoImplicit false

/-! # Merging documentation

The sources of a namespace are documented one by one and merged in their order. What comes
first wins: a class keeps its description if it has one, and of members with one name the first
stays. Functions and fields outside of classes are joined as they are.
-/

namespace LuaReference

/-- The elements of which no earlier one has the same name. -/
def firstByName {α : Type} (name : α → Text) : List α → List α
  | [] => []
  | first :: rest => first :: (firstByName name rest).filter (name · ≠ name first)

/-- The description of a class, or else of the one merged into it. -/
def firstDescription : Option Text → Option Text → Option Text
  | some (c :: text), _ => some (c :: text)
  | _, incoming => incoming

/-- One class made of two; the first has priority. -/
def ClassDoc.merge (existing incoming : ClassDoc) : ClassDoc where
  name := existing.name
  description := firstDescription existing.description incoming.description
  fields := firstByName FieldDoc.name (existing.fields ++ incoming.fields)
  functions := firstByName FunctionDoc.name (existing.functions ++ incoming.functions)

/-- The classes with one more: it is merged into the last class of its name, and comes last if
there is none. -/
def absorbClass (incoming : ClassDoc) : List ClassDoc → List ClassDoc
  | [] => [incoming]
  | doc :: rest =>
      if doc.name = incoming.name && rest.all (·.name ≠ incoming.name) then
        doc.merge incoming :: rest
      else doc :: absorbClass incoming rest

/-- The classes with further ones taken up in their order. -/
def mergeClasses (existing incoming : List ClassDoc) : List ClassDoc :=
  incoming.foldl (fun classes doc => absorbClass doc classes) existing

/-- One namespace made of two, with the name of the first. -/
def NamespaceDoc.merge (existing incoming : NamespaceDoc) : NamespaceDoc where
  name := existing.name
  classes := mergeClasses existing.classes incoming.classes
  functions := existing.functions ++ incoming.functions
  fields := existing.fields ++ incoming.fields

/-- The namespaces of all documents merged in order into one of the given name. -/
def mergeDocs (name : Text) (docs : List Doc) : NamespaceDoc :=
  (docs.flatMap Doc.namespaces).foldl NamespaceDoc.merge ⟨name, [], [], []⟩

end LuaReference
