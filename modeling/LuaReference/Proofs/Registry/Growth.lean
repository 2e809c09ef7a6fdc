import LuaReference.Proofs.Registry.Change
import LuaReference.Source.EnumTable

set_option autoImplicit false

/-! # How documentation grows

Documentation grows at its end only: what is known of a source turns into what is known of a
longer one by further entries behind those that are there, and by a returned value for functions
that had none (`NamespaceDoc.GrowsTo`). Two readings of the same lines that see different lines
behind them mirror each other (`Registry.Mirrors`): they make the same changes, apart from such
returned values. All changes that one of them makes later on are growth
(`Registry.Mirrors.flatten_applyAll`).
-/

namespace LuaReference

/-! ## Lists that grow at the end -/

/-- The entries of a list pair off with the first entries of another one. -/
inductive PairsOff {α : Type} (grows : α → α → Prop) : List α → List α → Prop where
  | nil {more : List α} : PairsOff grows [] more
  | cons {old new : α} {olds news : List α} (head : grows old new)
      (tail : PairsOff grows olds news) : PairsOff grows (old :: olds) (new :: news)

namespace PairsOff

variable {α : Type} {grows : α → α → Prop} {olds news : List α}

theorem of_forall₂ (h : List.Forall₂ grows olds news) : PairsOff grows olds news := by
  induction h with
  | nil => exact .nil
  | cons head _ ih => exact .cons head ih

/-- Further entries come behind those that are paired. -/
theorem append (h : PairsOff grows olds news) (more : List α) :
    PairsOff grows olds (news ++ more) := by
  induction h with
  | nil => exact .nil
  | cons head _ ih => exact .cons head ih

theorem map {f : α → α} (hf : ∀ old new, grows old new → grows (f old) (f new))
    (h : PairsOff grows olds news) : PairsOff grows (olds.map f) (news.map f) := by
  induction h with
  | nil => exact .nil
  | cons head _ ih => exact .cons (hf _ _ head) ih

end PairsOff

/-! ## Documentation that grows -/

/-- A function stays as it is, except that without returned values it may get one of any type. -/
def FunctionDoc.GrowsTo (old new : FunctionDoc) : Prop :=
  new = old ∨ old.returns = [] ∧ new = { old with returns := [{ type := anyType }] }

theorem FunctionDoc.GrowsTo.finish {old new : FunctionDoc} (h : old.GrowsTo new) :
    old.finish.GrowsTo new.finish := by
  rcases h with rfl | ⟨hreturns, rfl⟩
  · exact .inl rfl
  · exact .inr ⟨hreturns, rfl⟩

/-- A class keeps its name and its members; its description may change. -/
structure ClassDoc.GrowsTo (old new : ClassDoc) : Prop where
  name : new.name = old.name
  fields : old.fields <+: new.fields
  functions : PairsOff FunctionDoc.GrowsTo old.functions new.functions

/-- A namespace keeps its name, its classes and its members. -/
structure NamespaceDoc.GrowsTo (old new : NamespaceDoc) : Prop where
  name : new.name = old.name
  classes : PairsOff ClassDoc.GrowsTo old.classes new.classes
  functions : PairsOff FunctionDoc.GrowsTo old.functions new.functions
  fields : old.fields <+: new.fields

/-- A class still grows with one more change. -/
theorem ClassDoc.GrowsTo.apply {old new : ClassDoc} (h : old.GrowsTo new) (change : ClassChange) :
    old.GrowsTo (change.apply new) := by
  refine ⟨?_, ?_, ?_⟩
  · rw [ClassChange.apply_name, h.name]
  · rw [ClassChange.apply_fields]
    exact h.fields.trans (List.prefix_append _ _)
  · rw [ClassChange.apply_functions]
    exact h.functions.append _

namespace Registry

/-- The classes of a registry still grow with one more change. -/
theorem pairsOff_updateClass {name : Text} {change : ClassChange} {olds news : List ClassDoc}
    (h : PairsOff ClassDoc.GrowsTo olds news) :
    PairsOff ClassDoc.GrowsTo olds (updateClass name change.apply news) := by
  induction h with
  | nil => exact .nil
  | @cons old new olds news head tail ih =>
      rw [updateClass]
      split
      · exact .cons (head.apply change) tail
      · exact .cons head ih

theorem pairsOff_applyAll {olds : List ClassDoc} {registry : Registry}
    (h : PairsOff ClassDoc.GrowsTo olds registry.classes) (changes : List Change) :
    PairsOff ClassDoc.GrowsTo olds (registry.applyAll changes).classes := by
  induction changes generalizing registry with
  | nil => exact h
  | cons change changes ih =>
      refine ih ?_
      cases change with
      | inClass name change => exact pairsOff_updateClass h
      | addFunction function => exact h
      | addField field => exact h
      | addLocal name =>
          rw [classes_apply_of_none registry rfl]
          exact h

end Registry

/-! ## Two readings of the same lines -/

/-- The classes are the same but for values that their functions return. -/
def ClassDoc.Mirrors (old new : ClassDoc) : Prop :=
  ∃ functions, List.Forall₂ FunctionDoc.GrowsTo old.functions functions ∧
    new = { old with functions }

theorem ClassDoc.Mirrors.growsTo {old new : ClassDoc} (h : old.Mirrors new) :
    old.GrowsTo new := by
  obtain ⟨functions, hfunctions, rfl⟩ := h
  exact ⟨rfl, List.prefix_rfl, .of_forall₂ hfunctions⟩

/-- Changes that are the same but for values that a function returns. -/
inductive ClassChange.Mirrors : ClassChange → ClassChange → Prop where
  | describe (description : Option Text) : Mirrors (.describe description) (.describe description)
  | addFields (fields : List FieldDoc) : Mirrors (.addFields fields) (.addFields fields)
  | addFunction {old new : FunctionDoc} (grows : old.GrowsTo new) :
      Mirrors (.addFunction old) (.addFunction new)

/-- Mirrored changes keep classes mirrored. -/
theorem ClassDoc.Mirrors.apply {old new : ClassDoc} {change change' : ClassChange}
    (h : old.Mirrors new) (hc : change.Mirrors change') :
    (change.apply old).Mirrors (change'.apply new) := by
  obtain ⟨functions, hfunctions, rfl⟩ := h
  cases hc with
  | describe description =>
      simp only [ClassChange.apply, ClassDoc.describe]
      split <;> exact ⟨functions, hfunctions, rfl⟩
  | addFields fields => exact ⟨functions, hfunctions, rfl⟩
  | addFunction grows =>
      exact ⟨functions ++ [_], List.rel_append hfunctions (.cons grows .nil), rfl⟩

namespace Registry

/-- Changes that are the same but for values that a function returns. -/
inductive Change.Mirrors : Change → Change → Prop where
  | inClass {old new : ClassChange} (name : Text) (mirrors : old.Mirrors new) :
      Mirrors (.inClass name old) (.inClass name new)
  | addFunction {old new : FunctionDoc} (grows : old.GrowsTo new) :
      Mirrors (.addFunction old) (.addFunction new)
  | addField (field : FieldDoc) : Mirrors (.addField field) (.addField field)
  | addLocal (name : Text) : Mirrors (.addLocal name) (.addLocal name)

/-- The registries are the same but for values that functions return. -/
structure Mirrors (old new : Registry) : Prop where
  classes : List.Forall₂ ClassDoc.Mirrors old.classes new.classes
  functions : ∃ olds news, old.functions = olds.map FunctionDoc.draft ∧
    new.functions = news.map FunctionDoc.draft ∧ List.Forall₂ FunctionDoc.GrowsTo olds news
  fields : new.fields = old.fields
  locals : new.locals = old.locals

theorem forall₂_updateClass {name : Text} {change change' : ClassChange}
    {olds news : List ClassDoc} (h : List.Forall₂ ClassDoc.Mirrors olds news)
    (hc : change.Mirrors change') :
    List.Forall₂ ClassDoc.Mirrors (updateClass name change.apply olds)
      (updateClass name change'.apply news) := by
  induction h with
  | nil =>
      have hempty : ClassDoc.Mirrors ⟨name, none, [], []⟩ ⟨name, none, [], []⟩ :=
        ⟨[], .nil, rfl⟩
      exact .cons (hempty.apply hc) .nil
  | @cons old new olds news head tail ih =>
      rw [updateClass, updateClass, head.growsTo.name]
      split
      · exact .cons (head.apply hc) tail
      · exact .cons head ih

theorem names_of_forall₂ {olds news : List ClassDoc}
    (h : List.Forall₂ ClassDoc.Mirrors olds news) :
    news.map ClassDoc.name = olds.map ClassDoc.name := by
  induction h with
  | nil => rfl
  | cons head _ ih => rw [List.map_cons, List.map_cons, head.growsTo.name, ih]

namespace Mirrors

variable {old new : Registry}

theorem empty : Mirrors {} {} := ⟨.nil, ⟨[], [], rfl, rfl, .nil⟩, rfl, rfl⟩

theorem names (h : Mirrors old new) : new.names = old.names := names_of_forall₂ h.classes

/-- The same names are hidden, so both readings pass the same guards. -/
theorem isHidden (h : Mirrors old new) (name : Text) : new.isHidden name = old.isHidden name := by
  rw [Bool.eq_iff_iff, isHidden_iff, isHidden_iff, h.names, h.locals]

/-- Mirrored changes keep registries mirrored. -/
theorem apply {change change' : Change} (h : Mirrors old new) (hc : change.Mirrors change') :
    Mirrors (old.apply change) (new.apply change') := by
  cases hc with
  | inClass name mirrors =>
      exact ⟨forall₂_updateClass h.classes mirrors, h.functions, h.fields, h.locals⟩
  | @addFunction function function' grows =>
      obtain ⟨olds, news, hold, hnew, hgrow⟩ := h.functions
      refine ⟨h.classes, ⟨olds ++ [function], news ++ [function'], ?_, ?_, ?_⟩, h.fields, h.locals⟩
      · rw [functions_apply, hold, List.map_append]
        rfl
      · rw [functions_apply, hnew, List.map_append]
        rfl
      · exact List.rel_append hgrow (.cons grows .nil)
  | addField field =>
      refine ⟨h.classes, h.functions, ?_, h.locals⟩
      rw [fields_apply, fields_apply, h.fields]
  | addLocal name =>
      rw [Registry.apply, Registry.apply, addLocal, addLocal, h.locals]
      split
      · exact h
      · exact ⟨h.classes, h.functions, h.fields, rfl⟩

/-- **Documentation grows** from one registry to any that comes from a mirror of it by further
changes. -/
theorem flatten_applyAll (h : Mirrors old new) (changes : List Change) (namespaceName : Text) :
    ∃ before after, old.flatten namespaceName = .ok ⟨[before]⟩ ∧
      (new.applyAll changes).flatten namespaceName = .ok ⟨[after]⟩ ∧ before.GrowsTo after := by
  obtain ⟨olds, news, hold, hnew, hgrow⟩ := h.functions
  have hafter : (new.applyAll changes).functions =
      (news ++ changes.filterMap Change.function?).map FunctionDoc.draft := by
    rw [functions_applyAll, hnew, List.map_append]
  refine ⟨_, _, flatten_of_drafts hold namespaceName, flatten_of_drafts hafter namespaceName,
    rfl, ?_, ?_, ?_⟩
  · exact pairsOff_applyAll (.of_forall₂ (h.classes.imp fun _ _ => ClassDoc.Mirrors.growsTo)) changes
  · exact ((PairsOff.of_forall₂ hgrow).append _).map fun _ _ => FunctionDoc.GrowsTo.finish
  · show old.fields <+: (new.applyAll changes).fields
    rw [fields_applyAll, h.fields]
    exact List.prefix_append _ _

end Mirrors

end Registry

end LuaReference
