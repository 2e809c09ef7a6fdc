import LuaReference.Proofs.Results
import LuaReference.Registry.Basic
import Mathlib.Data.List.Nodup

set_option autoImplicit false

/-! # Changes of a registry

Whatever is read, a registry only ever takes a few kinds of changes: a class is described or gets
members, a function or a field outside of classes is added, a local name is recorded. A list of
changes has a closed form for each part of a registry (`mem_names_applyAll`,
`membersOf_applyAll`, `functions_applyAll`, `fields_applyAll`, `mem_locals_applyAll`), and it never
makes a second class of one name (`nodup_names_applyAll`).
-/

namespace LuaReference

/-! ## Kinds of changes -/

/-- A change of what is known about a class. -/
inductive ClassChange where
  | describe (description : Option Text)
  | addFields (fields : List FieldDoc)
  | addFunction (function : FunctionDoc)

namespace ClassChange

/-- The class after the change. -/
def apply (change : ClassChange) (doc : ClassDoc) : ClassDoc :=
  match change with
  | .describe description => doc.describe description
  | .addFields fields => { doc with fields := doc.fields ++ fields }
  | .addFunction function => { doc with functions := doc.functions ++ [function] }

/-- The fields that the change adds. -/
def fields : ClassChange → List FieldDoc
  | .addFields fields => fields
  | _ => []

/-- The functions that the change adds. -/
def functions : ClassChange → List FunctionDoc
  | .addFunction function => [function]
  | _ => []

@[simp] theorem apply_name (change : ClassChange) (doc : ClassDoc) :
    (change.apply doc).name = doc.name := by
  cases change with
  | describe description =>
      rw [apply, ClassDoc.describe]
      split <;> rfl
  | addFields fields => rfl
  | addFunction function => rfl

@[simp] theorem apply_fields (change : ClassChange) (doc : ClassDoc) :
    (change.apply doc).fields = doc.fields ++ change.fields := by
  cases change with
  | describe description =>
      simp only [apply, ClassDoc.describe, fields, List.append_nil]
      split <;> rfl
  | addFields fields => rfl
  | addFunction function => exact (List.append_nil _).symm

@[simp] theorem apply_functions (change : ClassChange) (doc : ClassDoc) :
    (change.apply doc).functions = doc.functions ++ change.functions := by
  cases change with
  | describe description =>
      simp only [apply, ClassDoc.describe, functions, List.append_nil]
      split <;> rfl
  | addFields fields => exact (List.append_nil _).symm
  | addFunction function => rfl

end ClassChange

namespace Registry

/-- A change of what is known about a source. -/
inductive Change where
  | inClass (name : Text) (change : ClassChange)
  | addFunction (function : FunctionDoc)
  | addField (field : FieldDoc)
  | addLocal (name : Text)

/-- The registry after a change. -/
def apply (registry : Registry) : Change → Registry
  | .inClass name change => registry.onClass name change.apply
  | .addFunction function => registry.addFunction function.draft
  | .addField field => registry.addField field
  | .addLocal name => registry.addLocal name

/-- The registry after changes made one by one. -/
def applyAll (registry : Registry) (changes : List Change) : Registry :=
  changes.foldl apply registry

theorem applyAll_nil (registry : Registry) : registry.applyAll [] = registry := rfl

theorem applyAll_cons (registry : Registry) (change : Change) (changes : List Change) :
    registry.applyAll (change :: changes) = (registry.apply change).applyAll changes := rfl

theorem applyAll_append (registry : Registry) (first second : List Change) :
    registry.applyAll (first ++ second) = (registry.applyAll first).applyAll second :=
  List.foldl_append

namespace Change

/-- The class that a change mentions. -/
def className? : Change → Option Text
  | .inClass name _ => some name
  | _ => none

/-- The members of one kind, `added` by a change of a class, that go to the class of a name. -/
def members {α : Type} (added : ClassChange → List α) (name : Text) : Change → List α
  | .inClass owner change => if owner = name then added change else []
  | _ => []

/-- The function outside of classes that a change adds. -/
def function? : Change → Option FunctionDoc
  | .addFunction function => some function
  | _ => none

/-- The field outside of classes that a change adds. -/
def field? : Change → Option FieldDoc
  | .addField field => some field
  | _ => none

end Change

/-! ## One class of a list -/

section UpdateClass

variable {name : Text} {change : ClassDoc → ClassDoc}

/-- A change of a class adds its name if the name is new. -/
theorem names_updateClass (h : ∀ doc, (change doc).name = doc.name) (classes : List ClassDoc) :
    (updateClass name change classes).map ClassDoc.name =
      if name ∈ classes.map ClassDoc.name then classes.map ClassDoc.name
      else classes.map ClassDoc.name ++ [name] := by
  induction classes with
  | nil => simp [updateClass, h]
  | cons doc rest ih =>
      by_cases hname : doc.name = name
      · rw [updateClass, if_pos hname, List.map_cons, h, if_pos]
        · rfl
        · rw [List.map_cons, hname]
          exact List.mem_cons_self
      · have hmem : name ∈ (doc :: rest).map ClassDoc.name ↔ name ∈ rest.map ClassDoc.name := by
          rw [List.map_cons, List.mem_cons, or_iff_right (Ne.symm hname)]
        rw [updateClass, if_neg hname, List.map_cons, ih]
        by_cases hrest : name ∈ rest.map ClassDoc.name
        · rw [if_pos hrest, if_pos (hmem.mpr hrest), List.map_cons]
        · rw [if_neg hrest, if_neg (fun hc => hrest (hmem.mp hc)), List.map_cons, List.cons_append]

/-- A change of a class is seen under its name and under no other. -/
theorem find?_updateClass (h : ∀ doc, (change doc).name = doc.name) (classes : List ClassDoc)
    (other : Text) :
    (updateClass name change classes).find? (·.name = other) =
      if name = other then
        some (change ((classes.find? (·.name = name)).getD ⟨name, none, [], []⟩))
      else classes.find? (·.name = other) := by
  induction classes with
  | nil => by_cases ho : name = other <;> simp [updateClass, h, ho]
  | cons doc rest ih =>
      by_cases hname : doc.name = name
      · subst hname
        rw [updateClass, if_pos rfl, List.find?_cons, List.find?_cons, List.find?_cons, h]
        by_cases ho : doc.name = other <;> simp [ho]
      · rw [updateClass, if_neg hname, List.find?_cons, ih, List.find?_cons, List.find?_cons]
        by_cases ho : name = other
        · subst ho
          simp [hname]
        · simp [ho]

/-- Of two changes to a class the second sees what the first has left. -/
theorem updateClass_updateClass {second : ClassDoc → ClassDoc}
    (h : ∀ doc, (change doc).name = doc.name) (classes : List ClassDoc) :
    updateClass name second (updateClass name change classes) =
      updateClass name (second ∘ change) classes := by
  induction classes with
  | nil =>
      -- the class is new, and the first change left it the name it is looked up by
      rw [updateClass]
      exact if_pos (h _)
  | cons doc rest ih =>
      by_cases hname : doc.name = name
      · rw [updateClass, if_pos hname, updateClass, if_pos ((h doc).trans hname), updateClass,
          if_pos hname]
        rfl
      · rw [updateClass, if_neg hname, updateClass, if_neg hname, ih, updateClass, if_neg hname]

/-- Nothing changes if the class is known and it is not changed itself. -/
theorem updateClass_eq_self_iff (classes : List ClassDoc) :
    updateClass name change classes = classes ↔
      ∃ doc, classes.find? (·.name = name) = some doc ∧ change doc = doc := by
  induction classes with
  | nil => simp [updateClass]
  | cons doc rest ih =>
      by_cases hname : doc.name = name
      · simp [updateClass, hname]
      · simp [updateClass, hname, ih]

end UpdateClass

/-- Fields that are added one after the other are added together. -/
theorem addClassFields_addClassFields (registry : Registry) (name : Text)
    (first second : List FieldDoc) :
    (registry.addClassFields name first).addClassFields name second =
      registry.addClassFields name (first ++ second) := by
  have hclasses : updateClass name (fun doc => { doc with fields := doc.fields ++ second })
      (updateClass name (fun doc => { doc with fields := doc.fields ++ first }) registry.classes) =
        updateClass name (fun doc => { doc with fields := doc.fields ++ (first ++ second) })
          registry.classes := by
    rw [updateClass_updateClass]
    · simp only [Function.comp_def, List.append_assoc]
    · intro doc
      rfl
  exact congrArg (fun classes => { registry with classes := classes }) hclasses

/-! ## The parts of a registry after a change -/

/-- The names of the classes in their order. -/
def names (registry : Registry) : List Text := registry.classes.map ClassDoc.name

/-- The members of one kind that the class of a name has, none for a name that no class has. -/
def membersOf {α : Type} (registry : Registry) (members : ClassDoc → List α) (name : Text) :
    List α :=
  ((registry.findClass? name).map members).getD []

theorem isSome_findClass? (registry : Registry) (name : Text) :
    (registry.findClass? name).isSome = true ↔ name ∈ registry.names := by
  simp [findClass?, names, List.find?_isSome]

/-- A class that is known does not change when no fields are added to it. -/
theorem addClassFields_nil {registry : Registry} {name : Text} (h : name ∈ registry.names) :
    registry.addClassFields name [] = registry := by
  obtain ⟨doc, hdoc⟩ := Option.isSome_iff_exists.mp ((isSome_findClass? registry name).mpr h)
  have hclasses : updateClass name (fun doc => { doc with fields := doc.fields ++ [] })
      registry.classes = registry.classes :=
    (updateClass_eq_self_iff registry.classes).mpr ⟨doc, hdoc, by rw [List.append_nil]⟩
  exact congrArg (fun classes => { registry with classes := classes }) hclasses

/-- A hidden name is a local one that no class has. -/
theorem isHidden_iff (registry : Registry) (name : Text) :
    registry.isHidden name = true ↔ name ∈ registry.locals ∧ name ∉ registry.names := by
  rw [isHidden, Bool.and_eq_true, decide_eq_true_iff, ← isSome_findClass?]
  simp

theorem names_apply (registry : Registry) (change : Change) :
    (registry.apply change).names =
      match change.className? with
      | some name =>
          if name ∈ registry.names then registry.names else registry.names ++ [name]
      | none => registry.names := by
  cases change with
  | inClass name change => exact names_updateClass change.apply_name registry.classes
  | addFunction function => rfl
  | addField field => rfl
  | addLocal name =>
      rw [apply, addLocal]
      split <;> rfl

theorem mem_names_apply (registry : Registry) (change : Change) (name : Text) :
    name ∈ (registry.apply change).names ↔
      change.className? = some name ∨ name ∈ registry.names := by
  rw [names_apply]
  cases change.className? with
  | none => simp
  | some other =>
      by_cases h : other ∈ registry.names
      · simp only [h, if_true, Option.some.injEq]
        constructor
        · exact Or.inr
        · rintro (rfl | hn)
          · exact h
          · exact hn
      · simp only [h, if_false, List.mem_append, List.mem_singleton, Option.some.injEq]
        rw [or_comm, eq_comm]

/-- A change is seen in the class it is made in and in no other. -/
theorem findClass?_apply_inClass (registry : Registry) (owner : Text) (change : ClassChange)
    (name : Text) :
    (registry.apply (.inClass owner change)).findClass? name =
      if owner = name then
        some (change.apply ((registry.findClass? owner).getD ⟨owner, none, [], []⟩))
      else registry.findClass? name :=
  find?_updateClass change.apply_name registry.classes name

/-- Changes outside of classes leave the classes alone. -/
theorem classes_apply_of_none (registry : Registry) {change : Change}
    (h : change.className? = none) : (registry.apply change).classes = registry.classes := by
  cases change with
  | inClass name change => cases h
  | addFunction function => rfl
  | addField field => rfl
  | addLocal name =>
      rw [apply, addLocal]
      split <;> rfl

/-- What is added to the members of one kind, the fields or the functions, comes last. -/
theorem membersOf_apply {α : Type} {members : ClassDoc → List α} {added : ClassChange → List α}
    (hm : ∀ change doc, members (ClassChange.apply change doc) = members doc ++ added change)
    (hnew : ∀ name, members ⟨name, none, [], []⟩ = []) (registry : Registry) (change : Change)
    (name : Text) :
    (registry.apply change).membersOf members name =
      registry.membersOf members name ++ change.members added name := by
  cases change with
  | inClass owner change =>
      rw [membersOf, findClass?_apply_inClass, membersOf, Change.members]
      by_cases h : owner = name
      · subst h
        cases registry.findClass? owner <;> simp [hm, hnew]
      · simp [h]
  | addFunction function => exact (List.append_nil _).symm
  | addField field => exact (List.append_nil _).symm
  | addLocal other =>
      rw [membersOf, findClass?, classes_apply_of_none registry rfl]
      exact (List.append_nil _).symm

theorem functions_apply (registry : Registry) (change : Change) :
    (registry.apply change).functions =
      registry.functions ++ change.function?.toList.map FunctionDoc.draft := by
  cases change with
  | inClass name change => exact (List.append_nil _).symm
  | addFunction function => rfl
  | addField field => exact (List.append_nil _).symm
  | addLocal name =>
      rw [apply, addLocal]
      split <;> exact (List.append_nil _).symm

theorem fields_apply (registry : Registry) (change : Change) :
    (registry.apply change).fields = registry.fields ++ change.field?.toList := by
  cases change with
  | inClass name change => exact (List.append_nil _).symm
  | addFunction function => exact (List.append_nil _).symm
  | addField field => rfl
  | addLocal name =>
      rw [apply, addLocal]
      split <;> exact (List.append_nil _).symm

theorem mem_locals_apply (registry : Registry) (change : Change) (name : Text) :
    name ∈ (registry.apply change).locals ↔
      change = .addLocal name ∨ name ∈ registry.locals := by
  cases change with
  | inClass owner change => simp [apply, onClass]
  | addFunction function => simp [apply, addFunction]
  | addField field => simp [apply, addField]
  | addLocal other =>
      rw [apply, addLocal]
      by_cases h : other ∈ registry.locals
      · -- the name is known already
        rw [if_pos h, Change.addLocal.injEq]
        constructor
        · exact Or.inr
        · rintro (rfl | hn)
          · exact h
          · exact hn
      · rw [if_neg h, List.mem_append, List.mem_singleton, Change.addLocal.injEq, or_comm,
          eq_comm]

/-! ## Lists of changes -/

theorem mem_names_applyAll (registry : Registry) (changes : List Change) (name : Text) :
    name ∈ (registry.applyAll changes).names ↔
      (∃ change ∈ changes, change.className? = some name) ∨ name ∈ registry.names := by
  induction changes generalizing registry with
  | nil => simp [applyAll_nil]
  | cons change changes ih =>
      rw [applyAll_cons, ih, mem_names_apply, List.exists_mem_cons_iff, or_assoc, or_left_comm]

/-- A registry never has two classes of one name. -/
theorem nodup_names_applyAll {registry : Registry} (h : registry.names.Nodup)
    (changes : List Change) : (registry.applyAll changes).names.Nodup := by
  induction changes generalizing registry with
  | nil => exact h
  | cons change changes ih =>
      refine ih ?_
      rw [names_apply]
      cases change.className? with
      | none => exact h
      | some name =>
          by_cases hn : name ∈ registry.names
          · simpa only [hn, if_true] using h
          · simp only [hn, if_false]
            simpa only [List.concat_eq_append] using h.concat hn

/-- The members of a class are those that were added to it, in their order. -/
theorem membersOf_applyAll {α : Type} {members : ClassDoc → List α} {added : ClassChange → List α}
    (hm : ∀ change doc, members (ClassChange.apply change doc) = members doc ++ added change)
    (hnew : ∀ name, members ⟨name, none, [], []⟩ = []) (registry : Registry)
    (changes : List Change) (name : Text) :
    (registry.applyAll changes).membersOf members name =
      registry.membersOf members name ++ changes.flatMap (Change.members added name) := by
  induction changes generalizing registry with
  | nil => exact (List.append_nil _).symm
  | cons change changes ih =>
      rw [applyAll_cons, ih, membersOf_apply hm hnew, List.flatMap_cons, List.append_assoc]

/-- The functions outside of classes are those that were added, in their order. -/
theorem functions_applyAll (registry : Registry) (changes : List Change) :
    (registry.applyAll changes).functions =
      registry.functions ++ (changes.filterMap Change.function?).map FunctionDoc.draft := by
  induction changes generalizing registry with
  | nil => exact (List.append_nil _).symm
  | cons change changes ih =>
      rw [applyAll_cons, ih, functions_apply, List.filterMap_cons]
      cases change.function? <;> simp

/-- The fields outside of classes are those that were added, in their order. -/
theorem fields_applyAll (registry : Registry) (changes : List Change) :
    (registry.applyAll changes).fields =
      registry.fields ++ changes.filterMap Change.field? := by
  induction changes generalizing registry with
  | nil => exact (List.append_nil _).symm
  | cons change changes ih =>
      rw [applyAll_cons, ih, fields_apply, List.filterMap_cons]
      cases change.field? <;> simp

theorem mem_locals_applyAll (registry : Registry) (changes : List Change) (name : Text) :
    name ∈ (registry.applyAll changes).locals ↔
      .addLocal name ∈ changes ∨ name ∈ registry.locals := by
  induction changes generalizing registry with
  | nil => simp [applyAll_nil]
  | cons change changes ih =>
      rw [applyAll_cons, ih, mem_locals_apply, List.mem_cons, eq_comm]
      tauto

/-! ## Registries that come from each other -/

/-- The second registry comes from the first one by changes of one sort. -/
def ChangesBy (allowed : Change → Prop) (old new : Registry) : Prop :=
  ∃ changes, new = old.applyAll changes ∧ ∀ change ∈ changes, allowed change

namespace ChangesBy

variable {allowed : Change → Prop} {first second third : Registry}

theorem refl (registry : Registry) : ChangesBy allowed registry registry :=
  ⟨[], rfl, by simp⟩

theorem one (registry : Registry) {change : Change} (h : allowed change) :
    ChangesBy allowed registry (registry.apply change) :=
  ⟨[change], rfl, fun _ hc => List.mem_singleton.mp hc ▸ h⟩

theorem trans (h : ChangesBy allowed first second) (h' : ChangesBy allowed second third) :
    ChangesBy allowed first third := by
  obtain ⟨changes, rfl, hc⟩ := h
  obtain ⟨more, rfl, hm⟩ := h'
  refine ⟨changes ++ more, (applyAll_append first changes more).symm, fun change hmem => ?_⟩
  rcases List.mem_append.mp hmem with hmem | hmem
  · exact hc change hmem
  · exact hm change hmem

theorem mono {wider : Change → Prop} (h : ChangesBy allowed first second)
    (hw : ∀ change, allowed change → wider change) : ChangesBy wider first second := by
  obtain ⟨changes, rfl, hc⟩ := h
  exact ⟨changes, rfl, fun change hmem => hw change (hc change hmem)⟩

/-- A local name stays one. -/
theorem mem_locals (h : ChangesBy allowed first second) {name : Text} (hn : name ∈ first.locals) :
    name ∈ second.locals := by
  obtain ⟨changes, rfl, -⟩ := h
  exact (mem_locals_applyAll first changes name).mpr (.inr hn)

end ChangesBy

/-! ## Finished documentation -/

/-- A registry whose functions all are drafts of finished ones turns into documentation. -/
theorem flatten_of_drafts {registry : Registry} {functions : List FunctionDoc}
    (h : registry.functions = functions.map FunctionDoc.draft) (namespaceName : Text) :
    registry.flatten namespaceName = .ok ⟨[⟨namespaceName, registry.classes,
      functions.map FunctionDoc.finish, registry.fields⟩]⟩ := by
  have hbuild : (functions.map FunctionDoc.draft).mapM FunctionDraft.build =
      .ok (functions.map FunctionDoc.finish) := mapM_map_eq_ok fun _ _ => rfl
  rw [flatten, h, hbuild]
  rfl

/-- Documentation tells other classes apart. -/
theorem flatten_withClasses_iff {registry : Registry} {functions : List FunctionDoc}
    (h : registry.functions = functions.map FunctionDoc.draft) (classes : List ClassDoc)
    (namespaceName : Text) :
    { registry with classes := classes }.flatten namespaceName = registry.flatten namespaceName ↔
      { registry with classes := classes } = registry := by
  have hnew : { registry with classes := classes }.functions =
      functions.map FunctionDoc.draft := h
  rw [flatten_of_drafts hnew, flatten_of_drafts h]
  obtain ⟨old, drafts, fields, locals⟩ := registry
  simp

end Registry

end LuaReference
