import LuaReference.Proofs.Registry.Change
import LuaReference.Registry.Edit
import Mathlib.Data.List.Induction

set_option autoImplicit false

/-! # Histories of a registry

A registry is made by one edit after the other, and the edits of different classes, functions and
fields may come in any order. What comes of a history is told part by part: a class by the edits
that are about it and by nothing else, the functions and fields outside of classes by those that add
them, and the order of the classes by their first mention (`flatten_edits`). An edit that fails
still mentions its class, and that is all it does (`edit_of_failed`).
-/

namespace LuaReference

namespace Registry

/-! ## What an edit is about -/

/-- A part of what is known about a source. -/
inductive Part where
  | classNamed (name : Text)
  | functions
  | fields
  | locals
deriving DecidableEq

/-- The class that a part is, if it is one. -/
def Part.className? : Part → Option Text
  | .classNamed name => some name
  | _ => none

namespace Edit

/-- The part that an edit is about. -/
def part : Edit → Part
  | .mention name | .describe name _ | .classField name _ | .classFunction name _ =>
      .classNamed name
  | .function _ => .functions
  | .field _ => .fields
  | .recordLocal _ => .locals

/-- The description that an edit gives to its class, which is none if it is blank. -/
def description? : Edit → Option Text
  | .describe _ description => cleanDescription description
  | _ => none

/-- The field that an edit adds to its class, unless it fails. -/
def classField? : Edit → Option FieldDoc
  | .classField _ draft => draft.build.toOption
  | _ => none

/-- The function that an edit adds to its class, unless it fails. -/
def classFunction? : Edit → Option FunctionDoc
  | .classFunction _ outline => outline.build.toOption
  | _ => none

/-- The function that an edit adds outside of classes, unless it fails. -/
def function? : Edit → Option FunctionDraft
  | .function outline => outline.draft.toOption
  | _ => none

/-- The field that an edit adds outside of classes, unless it fails. -/
def field? : Edit → Option FieldDoc
  | .field draft => draft.build.toOption
  | _ => none

/-- The class after an edit that is about it. -/
def inClass : Edit → ClassDoc → ClassDoc
  | .describe _ description, doc => doc.describe description
  | .classField _ draft, doc => { doc with fields := doc.fields ++ draft.build.toOption.toList }
  | .classFunction _ outline, doc =>
      { doc with functions := doc.functions ++ outline.build.toOption.toList }
  | _, doc => doc

@[simp] theorem inClass_eq (edit : Edit) (doc : ClassDoc) :
    edit.inClass doc = { doc with
      description := edit.description?.or doc.description
      fields := doc.fields ++ edit.classField?.toList
      functions := doc.functions ++ edit.classFunction?.toList } := by
  cases edit with
  | describe name description =>
      rw [inClass, ClassDoc.describe, description?]
      cases cleanDescription description <;> simp [classField?, classFunction?]
  | mention | classField | classFunction | function | field | recordLocal =>
      simp [inClass, description?, classField?, classFunction?]

end Edit

/-! ## One edit -/

theorem settle_of_failed {α : Type} {without : Registry} {built : Except DraftError α}
    {add : α → Registry} (h : (settle without built add).2.isSome = true) :
    (settle without built add).1 = without := by
  cases built with
  | ok value => cases h
  | error error => rfl

/-- **A failed edit** does no more than to mention the class that it is about. -/
theorem edit_of_failed {registry : Registry} {edit : Edit}
    (h : (registry.edit edit).2.isSome = true) :
    (registry.edit edit).1 =
      match edit.part.className? with
      | some name => registry.mention name
      | none => registry := by
  cases edit with
  | mention name => cases h
  | describe name description => cases h
  | classField name draft => exact settle_of_failed h
  | classFunction name outline => exact settle_of_failed h
  | function outline => exact settle_of_failed h
  | field draft => exact settle_of_failed h
  | recordLocal name => cases h

/-- A value that cannot be built is no value to add. -/
theorem fst_settle {α : Type} {without : Registry} (built : Except DraftError α)
    (add : List α → Registry) (hnone : add [] = without) :
    (settle without built fun value => add [value]).1 = add built.toOption.toList := by
  cases built with
  | ok value => rfl
  | error error => exact hnone.symm

/-- **What an edit does**: it changes the class that it is about, adds the function or the field that
it has, and records the local name that it has. -/
theorem edit_eq (registry : Registry) (edit : Edit) :
    (registry.edit edit).1 = {
      classes :=
        match edit.part.className? with
        | some name => updateClass name edit.inClass registry.classes
        | none => registry.classes
      functions := registry.functions ++ edit.function?.toList
      fields := registry.fields ++ edit.field?.toList
      locals :=
        match edit with
        | .recordLocal name => (registry.addLocal name).locals
        | _ => registry.locals } := by
  have hplain (classes : List ClassDoc) (locals : List Text) :
      Registry.mk classes registry.functions registry.fields locals =
        ⟨classes, registry.functions ++ [], registry.fields ++ [], locals⟩ := by
    rw [List.append_nil, List.append_nil]
  have hmention {name : Text} {change : ClassDoc → ClassDoc} (h : ∀ doc, change doc = doc) :
      registry.onClass name change = registry.mention name :=
    congrArg (registry.onClass name) (funext h)
  cases edit with
  | mention name => exact hplain _ _
  | describe name description => exact hplain _ _
  | classField name draft =>
      exact (fst_settle draft.build (registry.addClassFields name)
        (hmention fun doc => by rw [List.append_nil])).trans (hplain _ _)
  | classFunction name outline =>
      let add (functions : List FunctionDoc) : Registry :=
        registry.onClass name fun doc => { doc with functions := doc.functions ++ functions }
      exact (fst_settle outline.build add
        (hmention fun doc => by rw [List.append_nil])).trans (hplain _ _)
  | function outline =>
      let add (functions : List FunctionDraft) : Registry :=
        { registry with functions := registry.functions ++ functions }
      have hnone : add [] = registry := by simp only [add, List.append_nil]
      refine (fst_settle outline.draft add hnone).trans ?_
      show Registry.mk _ _ registry.fields _ = ⟨_, _, registry.fields ++ [], _⟩
      rw [List.append_nil]
      rfl
  | field draft =>
      let add (fields : List FieldDoc) : Registry :=
        { registry with fields := registry.fields ++ fields }
      have hnone : add [] = registry := by simp only [add, List.append_nil]
      refine (fst_settle draft.build add hnone).trans ?_
      show Registry.mk _ registry.functions _ _ = ⟨_, registry.functions ++ [], _, _⟩
      rw [List.append_nil]
      rfl
  | recordLocal name =>
      have hlocals : registry.addLocal name = ⟨registry.classes, registry.functions,
          registry.fields, (registry.addLocal name).locals⟩ := by
        rw [addLocal]
        split <;> rfl
      exact hlocals.trans (hplain _ _)

/-! ## Histories -/

/-- The registry after edits made one by one, those that fail included. -/
def editAll (registry : Registry) (edits : List Edit) : Registry :=
  edits.foldl (fun registry edit => (registry.edit edit).1) registry

/-- The edits that are about one part. -/
def about (part : Part) (edits : List Edit) : List Edit := edits.filter (·.part = part)

/-- The names of the classes in the order in which they are first mentioned. -/
def mentioned (edits : List Edit) : List Text :=
  (edits.filterMap (·.part.className?)).eraseDups

/-- The class that comes of the edits that are about it. -/
def classAfter (name : Text) (edits : List Edit) : ClassDoc where
  name := name
  description := (edits.filterMap Edit.description?).getLast?
  fields := edits.filterMap Edit.classField?
  functions := edits.filterMap Edit.classFunction?

theorem editAll_concat (registry : Registry) (edits : List Edit) (edit : Edit) :
    registry.editAll (edits ++ [edit]) = ((registry.editAll edits).edit edit).1 := by
  rw [editAll, List.foldl_append]
  rfl

theorem about_concat (part : Part) (edits : List Edit) (edit : Edit) :
    about part (edits ++ [edit]) =
      if edit.part = part then about part edits ++ [edit] else about part edits := by
  rw [about, List.filter_append]
  by_cases h : edit.part = part <;> simp [about, h]

theorem mem_mentioned {edits : List Edit} {name : Text} :
    name ∈ mentioned edits ↔ ∃ edit ∈ edits, edit.part.className? = some name := by
  rw [mentioned, List.mem_eraseDups, List.mem_filterMap]

/-- A name is listed once more only if it is new. -/
theorem eraseDups_concat (names : List Text) (name : Text) :
    (names ++ [name]).eraseDups =
      if name ∈ names then names.eraseDups else names.eraseDups ++ [name] := by
  rw [List.eraseDups_append]
  by_cases h : name ∈ names
  · have hrest : [name].removeAll names = [] := by simpa [List.removeAll] using h
    rw [if_pos h, hrest, List.eraseDups_nil, List.append_nil]
  · have hrest : [name].removeAll names = [name] := by simpa [List.removeAll] using h
    rw [if_neg h, hrest]
    rfl

theorem mentioned_concat (edits : List Edit) (edit : Edit) :
    mentioned (edits ++ [edit]) =
      match edit.part.className? with
      | some name =>
          if name ∈ mentioned edits then mentioned edits else mentioned edits ++ [name]
      | none => mentioned edits := by
  rw [mentioned, List.filterMap_append]
  cases hname : edit.part.className? with
  | none => simp [mentioned, hname]
  | some name => simp [mentioned, hname, eraseDups_concat]

theorem nodup_mentioned (edits : List Edit) : (mentioned edits).Nodup := by
  induction edits using List.reverseRecOn with
  | nil => exact List.nodup_nil
  | append_singleton edits edit ih =>
      rw [mentioned_concat]
      split
      · split
        · exact ih
        · rename_i hnew
          rw [← List.concat_eq_append]
          exact ih.concat hnew
      · exact ih

theorem classAfter_concat (name : Text) (edits : List Edit) (edit : Edit) :
    classAfter name (edits ++ [edit]) = edit.inClass (classAfter name edits) := by
  have hlast {α : Type} (added : Edit → Option α) :
      (edits ++ [edit]).filterMap added = edits.filterMap added ++ (added edit).toList := by
    rw [List.filterMap_append]
    cases h : added edit <;> simp [h]
  rw [Edit.inClass_eq, classAfter, hlast, hlast, hlast, List.getLast?_append]
  cases edit.description? <;> rfl

/-- Without edits that are about a class there is nothing known of it. -/
theorem about_eq_nil {edits : List Edit} {name : Text} (h : name ∉ mentioned edits) :
    about (.classNamed name) edits = [] := by
  refine List.filter_eq_nil_iff.mpr fun edit hedit hpart => h (mem_mentioned.mpr ⟨edit, hedit, ?_⟩)
  rw [of_decide_eq_true hpart]
  rfl

/-- A change of one class of a list that is made from the names of the classes. -/
theorem updateClass_map {name : Text} {change : ClassDoc → ClassDoc} {names : List Text}
    {docOf : Text → ClassDoc} (hnames : names.Nodup) (hname : ∀ name, (docOf name).name = name)
    (hnew : name ∉ names → docOf name = ⟨name, none, [], []⟩) :
    updateClass name change (names.map docOf) =
      (if name ∈ names then names else names ++ [name]).map fun other =>
        if other = name then change (docOf other) else docOf other := by
  induction names with
  | nil => simp [updateClass, hnew (List.not_mem_nil)]
  | cons first rest ih =>
      rw [List.nodup_cons] at hnames
      rw [List.map_cons, updateClass, hname]
      by_cases hfirst : first = name
      · subst hfirst
        have hrest : rest.map docOf =
            rest.map fun other => if other = first then change (docOf other) else docOf other := by
          refine List.map_congr_left fun other hother => ?_
          rw [if_neg (ne_of_mem_of_not_mem hother hnames.1)]
        rw [if_pos rfl, if_pos List.mem_cons_self, List.map_cons, if_pos rfl, hrest]
      · have hmem : name ∈ first :: rest ↔ name ∈ rest := by
          rw [List.mem_cons, or_iff_right (Ne.symm hfirst)]
        rw [if_neg hfirst, ih hnames.2 fun h => hnew fun hc => h (hmem.mp hc)]
        by_cases hrest : name ∈ rest
        · rw [if_pos hrest, if_pos (hmem.mpr hrest), List.map_cons, if_neg hfirst]
        · rw [if_neg hrest, if_neg (fun hc => hrest (hmem.mp hc)), List.cons_append, List.map_cons,
            if_neg hfirst]

/-- **The classes of a history**: they come in the order of their first mention, and each of them is
made by the edits that are about it. -/
theorem classes_editAll (edits : List Edit) :
    (editAll {} edits).classes =
      (mentioned edits).map fun name => classAfter name (about (.classNamed name) edits) := by
  induction edits using List.reverseRecOn with
  | nil => rfl
  | append_singleton edits edit ih =>
      have hclass (name : Text) : classAfter name (about (.classNamed name) (edits ++ [edit])) =
          if edit.part = .classNamed name then
            edit.inClass (classAfter name (about (.classNamed name) edits))
          else classAfter name (about (.classNamed name) edits) := by
        rw [about_concat]
        split
        · exact classAfter_concat _ _ _
        · rfl
      rw [editAll_concat, edit_eq, mentioned_concat, ih]
      cases hpart : edit.part with
      | classNamed name =>
          simp only [Part.className?, hclass, hpart, Part.classNamed.injEq]
          rw [updateClass_map (nodup_mentioned edits) (fun _ => rfl)]
          · simp only [eq_comm]
          · intro hnew
            rw [about_eq_nil hnew]
            rfl
      | functions | fields | locals => simp [Part.className?, hclass, hpart]

/-- What the edits add to a list one by one is there in the end. -/
theorem added_editAll {α : Type} {kept : Registry → List α} {added : Edit → Option α}
    (hempty : kept {} = [])
    (hedit : ∀ (registry : Registry) (edit : Edit),
      kept (registry.edit edit).1 = kept registry ++ (added edit).toList) (edits : List Edit) :
    kept (editAll {} edits) = edits.filterMap added := by
  induction edits using List.reverseRecOn with
  | nil => exact hempty
  | append_singleton edits edit ih =>
      rw [editAll_concat, hedit, ih, List.filterMap_append]
      cases h : added edit <;> simp [h]

theorem functions_editAll (edits : List Edit) :
    (editAll {} edits).functions = edits.filterMap Edit.function? :=
  added_editAll rfl (fun registry edit => by rw [edit_eq]) edits

theorem fields_editAll (edits : List Edit) :
    (editAll {} edits).fields = edits.filterMap Edit.field? :=
  added_editAll rfl (fun registry edit => by rw [edit_eq]) edits

/-- What only the edits of one part add is found among them. -/
theorem filterMap_about {α : Type} {part : Part} {added : Edit → Option α}
    (h : ∀ edit, edit.part ≠ part → added edit = none) (edits : List Edit) :
    (about part edits).filterMap added = edits.filterMap added := by
  rw [about, List.filterMap_filter]
  refine List.filterMap_congr fun edit _ => ?_
  by_cases hpart : edit.part = part
  · rw [if_pos (decide_eq_true hpart)]
  · rw [if_neg (by simpa using hpart), h edit hpart]

/-- Histories that tell the same about each part and mention the classes in the same order are told
apart by the local names alone. -/
theorem editAll_eq_of_about {edits other : List Edit} (hnames : mentioned other = mentioned edits)
    (habout : ∀ part, part ≠ .locals → about part other = about part edits) :
    editAll {} other = { editAll {} edits with locals := (editAll {} other).locals } := by
  have hclasses : (editAll {} other).classes = (editAll {} edits).classes := by
    rw [classes_editAll, classes_editAll, hnames]
    refine List.map_congr_left fun name _ => ?_
    rw [habout (.classNamed name) (by simp)]
  have hfunctions : (editAll {} other).functions = (editAll {} edits).functions := by
    have hnone (edit : Edit) (h : edit.part ≠ .functions) : edit.function? = none := by
      cases edit <;> first | rfl | exact absurd rfl h
    rw [functions_editAll, functions_editAll, ← filterMap_about hnone, habout .functions (by simp),
      filterMap_about hnone]
  have hfields : (editAll {} other).fields = (editAll {} edits).fields := by
    have hnone (edit : Edit) (h : edit.part ≠ .fields) : edit.field? = none := by
      cases edit <;> first | rfl | exact absurd rfl h
    rw [fields_editAll, fields_editAll, ← filterMap_about hnone, habout .fields (by simp),
      filterMap_about hnone]
  calc editAll {} other
      = ⟨(editAll {} other).classes, (editAll {} other).functions, (editAll {} other).fields,
          (editAll {} other).locals⟩ := rfl
    _ = { editAll {} edits with locals := (editAll {} other).locals } := by
        rw [hclasses, hfunctions, hfields]

/-! ## What is documented in the end -/

/-- Drafts that have names are drafts of finished functions. -/
theorem exists_functions_of_named {drafts : List FunctionDraft}
    (h : ∀ draft ∈ drafts, draft.name ≠ none) :
    ∃ functions : List FunctionDoc, drafts = functions.map FunctionDoc.draft := by
  induction drafts with
  | nil => exact ⟨[], rfl⟩
  | cons draft drafts ih =>
      rw [List.forall_mem_cons] at h
      obtain ⟨name, hname⟩ := Option.ne_none_iff_exists'.mp h.1
      obtain ⟨functions, rfl⟩ := ih h.2
      obtain ⟨_, isStatic, description, params, returns⟩ := draft
      obtain rfl : _ = some name := hname
      exact ⟨⟨name, isStatic, description, params, returns⟩ :: functions, rfl⟩

theorem mapM_build_of_nameless {drafts : List FunctionDraft}
    (h : ∃ draft ∈ drafts, draft.name = none) :
    drafts.mapM FunctionDraft.build = .error .functionName := by
  induction drafts with
  | nil => simp at h
  | cons draft drafts ih =>
      rw [List.mapM_cons, FunctionDraft.build]
      cases hname : draft.name with
      | none => rfl
      | some name =>
          have hrest : ∃ draft ∈ drafts, draft.name = none := by simpa [hname] using h
          rw [ih hrest]
          rfl

/-- **A history is documented part by part.** If all functions outside of classes have names, the
documentation holds the classes in the order of their first mention, each with what the edits about
it have made of it, and the functions and fields in their order. Histories that mention the classes
in the same order and agree on each part are documented alike, and an edit that fails does no more
than to mention its class. -/
theorem flatten_edits (namespaceName : Text) (edits : List Edit) :
    ((∀ draft ∈ edits.filterMap Edit.function?, draft.name ≠ none) →
        ∃ functions : List FunctionDoc,
          edits.filterMap Edit.function? = functions.map FunctionDoc.draft ∧
            (editAll {} edits).flatten namespaceName = .ok ⟨[{
              name := namespaceName
              classes := (mentioned edits).map fun name =>
                classAfter name (about (.classNamed name) edits)
              functions := functions.map FunctionDoc.finish
              fields := edits.filterMap Edit.field? }]⟩) ∧
      ((∃ draft ∈ edits.filterMap Edit.function?, draft.name = none) →
        (editAll {} edits).flatten namespaceName = .error .functionName) ∧
      (∀ other, mentioned other = mentioned edits →
        (∀ part, part ≠ .locals → about part other = about part edits) →
          (editAll {} other).flatten namespaceName = (editAll {} edits).flatten namespaceName) ∧
      ∀ (registry : Registry) (edit : Edit), (registry.edit edit).2.isSome = true →
        (registry.edit edit).1 =
          match edit.part.className? with
          | some name => registry.mention name
          | none => registry := by
  refine ⟨fun hnamed => ?_, fun hnameless => ?_, fun other hnames habout => ?_,
    fun _ _ => edit_of_failed⟩
  · obtain ⟨functions, hfunctions⟩ := exists_functions_of_named hnamed
    refine ⟨functions, hfunctions, ?_⟩
    rw [← classes_editAll, ← fields_editAll]
    exact flatten_of_drafts ((functions_editAll edits).trans hfunctions) namespaceName
  · rw [flatten, functions_editAll, mapM_build_of_nameless hnameless]
    rfl
  · rw [editAll_eq_of_about hnames habout]
    rfl

/-- Edits of two classes, of which one lacks a type and one gives a blank description. -/
def toolEdits : List Edit :=
  [.mention "Tool".toList, .classField "Shop".toList { name := some "size".toList },
    .function { name := some "open".toList }, .describe "Tool".toList (some " Works. ".toList),
    .recordLocal "count".toList, .describe "Tool".toList (some " ".toList),
    .classField "Tool".toList { name := some "edge".toList, type := some "number".toList }]

/-- The same edits, those of different parts in another order. -/
def otherToolEdits : List Edit :=
  [.recordLocal "other".toList, .mention "Tool".toList,
    .describe "Tool".toList (some " Works. ".toList),
    .classField "Shop".toList { name := some "size".toList },
    .describe "Tool".toList (some " ".toList),
    .classField "Tool".toList { name := some "edge".toList, type := some "number".toList },
    .function { name := some "open".toList }]

theorem flatten_toolEdits :
    (editAll {} toolEdits).flatten "shop".toList = .ok ⟨[{
        name := "shop".toList
        classes :=
          [⟨"Tool".toList, some "Works.".toList,
              [⟨"edge".toList, "number".toList, false, none⟩], []⟩,
            ⟨"Shop".toList, none, [], []⟩]
        functions := [⟨"open".toList, true, none, [], []⟩]
        fields := [] }]⟩ ∧
      (editAll {} otherToolEdits).flatten "shop".toList =
        (editAll {} toolEdits).flatten "shop".toList ∧
      (editAll {} (.function {} :: toolEdits)).flatten "shop".toList = .error .functionName ∧
      (edit {} (.classField "Shop".toList { name := some "size".toList })).1 =
        mention {} "Shop".toList := by
  have hnames : mentioned otherToolEdits = mentioned toolEdits := by decide
  have habout (part : Part) (hpart : part ≠ .locals) :
      about part otherToolEdits = about part toolEdits := by
    cases part with
    | classNamed name =>
        by_cases hname : name ∈ mentioned toolEdits
        · have htwo : mentioned toolEdits = ["Tool".toList, "Shop".toList] := by decide
          rw [htwo, List.mem_pair] at hname
          rcases hname with rfl | rfl <;> decide
        · rw [about_eq_nil hname, about_eq_nil (hnames ▸ hname)]
    | functions => rfl
    | fields => rfl
    | locals => exact absurd rfl hpart
  obtain ⟨hnamed, -, hsame, hfailed⟩ := flatten_edits "shop".toList toolEdits
  obtain ⟨functions, hfunctions, hflatten⟩ := hnamed (by decide)
  refine ⟨?_, hsame otherToolEdits hnames habout, ?_, hfailed {} _ (by decide)⟩
  · obtain ⟨function, more, rfl, hdraft, hmore⟩ := List.map_eq_cons_iff.mp hfunctions.symm
    obtain rfl := List.map_eq_nil_iff.mp hmore
    obtain ⟨name, isStatic, description, params, returns⟩ := function
    obtain ⟨hname, rfl, rfl, rfl, rfl⟩ := FunctionDraft.mk.inj hdraft
    obtain rfl := Option.some.inj hname
    exact hflatten.trans (congrArg Except.ok (by decide))
  · exact (flatten_edits "shop".toList (.function {} :: toolEdits)).2.1 (by decide)

end Registry

end LuaReference
