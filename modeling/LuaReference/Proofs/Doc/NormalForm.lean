import LuaReference.Doc.Entry
import LuaReference.Proofs.Merge.Lossless
import LuaReference.Proofs.Text.Run

set_option autoImplicit false

/-! # Documentation in normal form

In documentation that is in normal form names and descriptions have no blanks at their ends, names
are not empty, and a description that would be empty is absent. Finishing an entry brings its
description into normal form, whatever it was (`isClean_cleanDescription`), and merging keeps the
form and makes one class of each name (`NamespaceDoc.isNormal_mergeDocs`).
-/

namespace LuaReference

/-! ## Texts -/

/-- A text that is not empty and has no blanks at its ends. -/
structure IsTrimmed (text : Text) : Prop where
  ne_nil : text ≠ []
  trim_eq : Text.trim text = text

theorem isTrimmed_trim {text : Text} (h : Text.trim text ≠ []) : IsTrimmed (Text.trim text) :=
  ⟨h, (Text.endsInInk_trim h).trim_eq_self (Text.head_trim text)⟩

theorem Text.IsWord.isTrimmed {word : Text} (h : Text.IsWord word) : IsTrimmed word := by
  have hhead := h.head_not_blank []
  rw [List.append_nil] at hhead
  exact ⟨h.ne_nil, h.endsInInk.trim_eq_self hhead⟩

/-- A text without any blank has none at its ends. -/
theorem isTrimmed_of_not_blank {text : Text} (hne : text ≠ [])
    (h : ∀ c ∈ text, isBlank c = false) : IsTrimmed text := by
  refine ⟨hne, Text.trim_eq_self_iff.mpr ⟨fun c hc => ?_, fun c hc => ?_⟩⟩
  · exact h c (List.mem_of_mem_head? hc)
  · exact h c (List.mem_of_mem_getLast? hc)

/-! ## Descriptions -/

/-- A description that is absent or a trimmed text. -/
def IsClean (description : Option Text) : Prop := ∀ text ∈ description, IsTrimmed text

theorem isClean_cleanDescription (description : Option Text) :
    IsClean (cleanDescription description) := by
  cases description with
  | none => simp [IsClean, cleanDescription]
  | some text =>
      rw [cleanDescription]
      split
      · simp [IsClean]
      · rename_i kept hkept
        have htrim : IsTrimmed (Text.trim text) := isTrimmed_trim hkept
        intro other ho
        rwa [← Option.some.inj ho]

/-- What is clean stays as it is. -/
theorem IsClean.cleanDescription_eq {description : Option Text} (h : IsClean description) :
    cleanDescription description = description := by
  cases description with
  | none => rfl
  | some text =>
      have htext := h text rfl
      rw [cleanDescription, htext.trim_eq]
      cases text with
      | nil => exact absurd rfl htext.ne_nil
      | cons c rest => rfl

theorem IsClean.firstDescription {first second : Option Text} (h : IsClean first)
    (h' : IsClean second) : IsClean (firstDescription first second) := by
  rw [LuaReference.firstDescription.eq_def]
  split
  · exact h
  · exact h'

/-! ## Parts of documentation -/

/-- A field in normal form. -/
structure FieldDoc.IsNormal (field : FieldDoc) : Prop where
  name : IsTrimmed field.name
  description : IsClean field.description

/-- A parameter in normal form. -/
structure ParamDoc.IsNormal (param : ParamDoc) : Prop where
  name : IsTrimmed param.name
  description : IsClean param.description

/-- A returned value in normal form: its name may be missing, so it only has to consist of word
characters. -/
structure ReturnDoc.IsNormal (value : ReturnDoc) : Prop where
  name : ∀ c ∈ value.name, isWord c = true
  description : IsClean value.description

/-- A function in normal form, with its parameters and returned values. -/
structure FunctionDoc.IsNormal (function : FunctionDoc) : Prop where
  name : IsTrimmed function.name
  description : IsClean function.description
  params : ∀ param ∈ function.params, param.IsNormal
  returns : ∀ value ∈ function.returns, value.IsNormal

/-- A class in normal form, with its members. -/
structure ClassDoc.IsNormal (doc : ClassDoc) : Prop where
  name : IsTrimmed doc.name
  description : IsClean doc.description
  fields : ∀ field ∈ doc.fields, field.IsNormal
  functions : ∀ function ∈ doc.functions, function.IsNormal

/-- A namespace in normal form has each class once, and all of its parts are in normal form. -/
structure NamespaceDoc.IsNormal (doc : NamespaceDoc) : Prop where
  distinct : (doc.classes.map ClassDoc.name).Nodup
  classes : ∀ c ∈ doc.classes, c.IsNormal
  functions : ∀ function ∈ doc.functions, function.IsNormal
  fields : ∀ field ∈ doc.fields, field.IsNormal

theorem FieldDoc.isNormal_finish {field : FieldDoc} (h : IsTrimmed field.name) :
    field.finish.IsNormal := ⟨h, isClean_cleanDescription field.description⟩

theorem ParamEntry.isNormal_finish {entry : ParamEntry} (h : IsTrimmed entry.name) :
    entry.finish.IsNormal := ⟨h, isClean_cleanDescription entry.description⟩

theorem ReturnEntry.isNormal_finish {entry : ReturnEntry}
    (h : ∀ name ∈ entry.name, Text.IsWord name) : entry.finish.IsNormal := by
  refine ⟨?_, isClean_cleanDescription entry.description⟩
  cases hname : entry.name with
  | none => simp [ReturnEntry.finish, hname]
  | some name => simpa [ReturnEntry.finish, hname] using (h name hname).chars

theorem FunctionDoc.IsNormal.finish {function : FunctionDoc} (h : function.IsNormal) :
    function.finish.IsNormal :=
  ⟨h.name, isClean_cleanDescription function.description, h.params, h.returns⟩

theorem ClassDoc.IsNormal.describe {doc : ClassDoc} (h : doc.IsNormal)
    (description : Option Text) : (doc.describe description).IsNormal := by
  have hclean := isClean_cleanDescription description
  rw [ClassDoc.describe]
  split
  · exact h
  · rename_i text htext
    rw [htext] at hclean
    exact ⟨h.name, hclean, h.fields, h.functions⟩

/-! ## Merging -/

/-- The first elements of each name are elements. -/
theorem mem_of_mem_firstByName {α : Type} {name : α → Text} {x : α} {xs : List α}
    (h : x ∈ firstByName name xs) : x ∈ xs := by
  induction xs with
  | nil => exact h
  | cons first rest ih =>
      rw [firstByName] at h
      rcases List.mem_cons.mp h with rfl | h
      · exact List.mem_cons_self
      · exact List.mem_cons_of_mem _ (ih (List.mem_of_mem_filter h))

theorem ClassDoc.IsNormal.merge {first second : ClassDoc} (h : first.IsNormal)
    (h' : second.IsNormal) : (first.merge second).IsNormal := by
  refine ⟨h.name, h.description.firstDescription h'.description, fun field hf => ?_,
    fun function hf => ?_⟩
  · rcases List.mem_append.mp (mem_of_mem_firstByName hf) with hf | hf
    · exact h.fields field hf
    · exact h'.fields field hf
  · rcases List.mem_append.mp (mem_of_mem_firstByName hf) with hf | hf
    · exact h.functions function hf
    · exact h'.functions function hf

theorem ClassDoc.isNormal_mergeAll {docs : List ClassDoc} (h : ∀ c ∈ docs, c.IsNormal)
    {doc : ClassDoc} (hdoc : mergeAll docs = some doc) : doc.IsNormal := by
  induction docs using List.reverseRecOn generalizing doc with
  | nil => cases hdoc
  | append_singleton docs c ih =>
      have hc : c.IsNormal := h c (by simp)
      have hdocs : ∀ d ∈ docs, d.IsNormal := fun d hd => h d (List.mem_append_left _ hd)
      rw [mergeAll_concat, Option.some.injEq] at hdoc
      subst hdoc
      cases hmerged : mergeAll docs with
      | none => exact hc
      | some merged => exact (ih hdocs hmerged).merge hc

/-- Documents in normal form are merged into a namespace in normal form. -/
theorem NamespaceDoc.isNormal_mergeDocs {docs : List Doc}
    (h : ∀ doc ∈ docs, ∀ namespaceDoc ∈ doc.namespaces, namespaceDoc.IsNormal) (name : Text) :
    (mergeDocs name docs).IsNormal := by
  have hinputs : ∀ doc ∈ docs.flatMap Doc.namespaces, doc.IsNormal := by
    intro namespaceDoc hmem
    obtain ⟨doc, hdoc, hmem⟩ := List.mem_flatMap.mp hmem
    exact h doc hdoc namespaceDoc hmem
  rw [mergeDocs, foldl_merge]
  refine ⟨nodup_names_mergeClasses _, fun c hc => ?_, fun function hf => ?_, fun field hf => ?_⟩
  · refine ClassDoc.isNormal_mergeAll (fun d hd => ?_) (mergeAll_of_mem hc)
    obtain ⟨doc, hdoc, hd⟩ := List.mem_flatMap.mp (List.mem_of_mem_filter hd)
    exact (hinputs doc hdoc).classes d hd
  · obtain ⟨doc, hdoc, hf⟩ := List.mem_flatMap.mp hf
    exact (hinputs doc hdoc).functions function hf
  · obtain ⟨doc, hdoc, hf⟩ := List.mem_flatMap.mp hf
    exact (hinputs doc hdoc).fields field hf

end LuaReference
