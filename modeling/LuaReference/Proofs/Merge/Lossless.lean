import LuaReference.Proofs.Merge.Regroup
import Mathlib.Data.List.Induction

set_option autoImplicit false

/-! # What a merge keeps

The classes of merged documents have a closed form: there is one for each name, in the order in
which the names first occur, and it is all classes of that name merged from left to right
(`find?_mergeClasses`). Read off member by member, this says that nothing is lost and that the
first source wins (`mergeDocs_lossless`).
-/

namespace LuaReference

/-! ## One class for each name -/

/-- A further class at the end of a list is taken up last. -/
theorem mergeClasses_concat (classes : List ClassDoc) (c : ClassDoc) :
    mergeClasses [] (classes ++ [c]) = absorbClass c (mergeClasses [] classes) :=
  mergeClasses_append _ _ _

theorem names_mergeClasses (classes : List ClassDoc) :
    (mergeClasses [] classes).map ClassDoc.name = (classes.map ClassDoc.name).eraseDups := by
  induction classes using List.reverseRecOn with
  | nil => rfl
  | append_singleton classes c ih =>
      have hmem : c.name ∈ (mergeClasses [] classes).map ClassDoc.name ↔
          c.name ∈ classes.map ClassDoc.name := by rw [ih, List.mem_eraseDups]
      rw [mergeClasses_concat, names_absorbClass, List.map_append, List.eraseDups_append, ih]
      by_cases h : c.name ∈ classes.map ClassDoc.name
      · -- the name was there before, so neither side gets longer
        have hrest : ([c].map ClassDoc.name).removeAll (classes.map ClassDoc.name) = [] := by
          simpa [List.removeAll] using h
        rw [if_pos (ih ▸ hmem.mpr h), hrest, List.eraseDups_nil, List.append_nil]
      · have hrest : ([c].map ClassDoc.name).removeAll (classes.map ClassDoc.name) = [c.name] := by
          simpa [List.removeAll] using h
        rw [if_neg (fun hc => h (hmem.mp (ih ▸ hc))), hrest]
        rfl

theorem nodup_names_mergeClasses (classes : List ClassDoc) :
    ((mergeClasses [] classes).map ClassDoc.name).Nodup := by
  induction classes using List.reverseRecOn with
  | nil => exact List.nodup_nil
  | append_singleton classes c ih =>
      rw [mergeClasses_concat, names_absorbClass]
      split
      · exact ih
      · rename_i hc
        refine List.nodup_append.mpr ⟨ih, by simp, ?_⟩
        intro n hn m hm hnm
        rw [List.mem_singleton] at hm
        exact hc (hm ▸ hnm ▸ hn)

/-- Classes stay as they are exactly if no two have the same name. -/
theorem mergeClasses_nil_eq_self_iff {classes : List ClassDoc} :
    mergeClasses [] classes = classes ↔ (classes.map ClassDoc.name).Nodup := by
  constructor
  · intro h
    rw [← h]
    exact nodup_names_mergeClasses classes
  · intro h
    induction classes using List.reverseRecOn with
    | nil => rfl
    | append_singleton classes c ih =>
        rw [List.map_append, List.nodup_append] at h
        obtain ⟨hnd, -, hdistinct⟩ := h
        have hnew : c.name ∉ classes.map ClassDoc.name := fun hc =>
          hdistinct c.name hc c.name (List.mem_singleton_self _) rfl
        rw [mergeClasses_concat, ih hnd, absorbClass_of_not_mem hnew]

/-! ## The class of a name -/

/-- All classes of a list merged from left to right. -/
def mergeAll : List ClassDoc → Option ClassDoc
  | [] => none
  | doc :: docs => some (docs.foldl ClassDoc.merge doc)

theorem mergeAll_concat (docs : List ClassDoc) (c : ClassDoc) :
    mergeAll (docs ++ [c]) = some (((mergeAll docs).map (·.merge c)).getD c) := by
  cases docs with
  | nil => rfl
  | cons doc docs => simp [mergeAll, List.foldl_append]

/-- Among classes of different names, taking a class up changes the one of its name alone. -/
theorem find?_absorbClass (c : ClassDoc) (n : Text) {classes : List ClassDoc}
    (hnd : (classes.map ClassDoc.name).Nodup) :
    (absorbClass c classes).find? (·.name = n) =
      if c.name = n then some (((classes.find? (·.name = n)).map (·.merge c)).getD c)
      else classes.find? (·.name = n) := by
  induction classes with
  | nil => by_cases h : c.name = n <;> simp [absorbClass, h]
  | cons d rest ih =>
      rw [List.map_cons, List.nodup_cons] at hnd
      by_cases hd : d.name = c.name
      · -- no other class of that name stands behind, so this one takes the new one up
        have hup : TakesUp c d rest := ⟨hd, hd ▸ hnd.1⟩
        rw [absorbClass_cons_of_takesUp hup, List.find?_cons, List.find?_cons,
          ClassDoc.merge_name, hd]
        by_cases hn : c.name = n
        · simp [hn]
        · simp [hn]
      · rw [absorbClass_cons_of_not_takesUp (fun h => hd h.1), List.find?_cons, List.find?_cons,
          ih hnd.2]
        by_cases hn : d.name = n
        · have hc : c.name ≠ n := fun h => hd (hn.trans h.symm)
          simp [hn, hc]
        · simp [hn]

/-- **The closed form of a merge**: the class of a name is all classes of that name merged. -/
theorem find?_mergeClasses (n : Text) (classes : List ClassDoc) :
    (mergeClasses [] classes).find? (·.name = n) = mergeAll (classes.filter (·.name = n)) := by
  induction classes using List.reverseRecOn with
  | nil => rfl
  | append_singleton classes c ih =>
      rw [mergeClasses_concat, find?_absorbClass c n (nodup_names_mergeClasses classes), ih,
        List.filter_append]
      by_cases h : c.name = n
      · simp [h, mergeAll_concat]
      · simp [h]

/-- A class of a merged list is all classes of its name merged. -/
theorem mergeAll_of_mem {classes : List ClassDoc} {doc : ClassDoc}
    (h : doc ∈ mergeClasses [] classes) :
    mergeAll (classes.filter (·.name = doc.name)) = some doc := by
  rw [← find?_mergeClasses]
  have hnd := nodup_names_mergeClasses classes
  generalize mergeClasses [] classes = merged at h hnd
  induction merged with
  | nil => simp at h
  | cons d rest ih =>
      rw [List.map_cons, List.nodup_cons] at hnd
      rw [List.find?_cons]
      rcases List.mem_cons.mp h with rfl | h
      · simp
      · have hne : d.name ≠ doc.name := fun hn => hnd.1 (hn ▸ List.mem_map_of_mem h)
        simp [hne, ih h hnd.2]

/-! ## The members of a merged class -/

/-- The first member of a name in a merged class is the first one in the members of all classes
it was made of. -/
theorem find?_of_mergeAll {α : Type} (name : α → Text) (members : ClassDoc → List α)
    (hm : ∀ a b : ClassDoc, members (a.merge b) = firstByName name (members a ++ members b))
    (n : Text) {docs : List ClassDoc} {doc : ClassDoc} (h : mergeAll docs = some doc) :
    (members doc).find? (name · = n) = (docs.flatMap members).find? (name · = n) := by
  cases docs with
  | nil => simp [mergeAll] at h
  | cons first rest =>
      obtain rfl : rest.foldl ClassDoc.merge first = doc := Option.some.inj h
      exact find?_foldl_merge name members hm n first rest

/-- A merged class has a member of a name if one of the classes it was made of has one. -/
theorem mem_names_of_mergeAll {α : Type} (name : α → Text) (members : ClassDoc → List α)
    (hm : ∀ a b : ClassDoc, members (a.merge b) = firstByName name (members a ++ members b))
    (n : Text) {docs : List ClassDoc} {doc : ClassDoc} (h : mergeAll docs = some doc) :
    n ∈ (members doc).map name ↔ ∃ c ∈ docs, n ∈ (members c).map name := by
  rw [mem_map_iff_find?, find?_of_mergeAll name members hm n h, ← mem_map_iff_find?]
  simp only [List.mem_map, List.mem_flatMap]
  constructor
  · rintro ⟨x, ⟨c, hc, hx⟩, hn⟩
    exact ⟨c, hc, x, hx, hn⟩
  · rintro ⟨c, hc, x, hx, hn⟩
    exact ⟨x, ⟨c, hc, hx⟩, hn⟩

/-- The text of a merged class is that of the first class that has any. -/
theorem description_of_mergeAll {docs : List ClassDoc} {doc : ClassDoc} {text : Text}
    (h : mergeAll docs = some doc) (ht : docs.findSome? ClassDoc.text? = some text) :
    doc.description = some text := by
  cases docs with
  | nil => simp at ht
  | cons first rest =>
      obtain rfl : rest.foldl ClassDoc.merge first = doc := Option.some.inj h
      rw [← text?_foldl_merge, ClassDoc.text?, Option.filter_eq_some_iff] at ht
      exact ht.1

/-! ## Whole documents

Of the three parts the classes alone are merged; the functions and fields outside of classes are
joined (`foldl_merge`). -/

/-- **Nothing is lost and the first source wins.** The classes are those of all documents, each
name once and in the order of first occurrence. A class has exactly the members that the
classes of its name have; of several members of one name the first in all of the documents
comes first, and the description is the first one that is not empty. Functions and fields
outside of classes are those of all documents in order. -/
theorem mergeDocs_lossless (name : Text) (docs : List Doc) :
    let inputs := docs.flatMap Doc.namespaces
    let classes := inputs.flatMap NamespaceDoc.classes
    let merged := mergeDocs name docs
    merged.classes.map ClassDoc.name = (classes.map ClassDoc.name).eraseDups ∧
      (∀ doc ∈ merged.classes,
        let same := classes.filter (·.name = doc.name)
        (∀ n, (n ∈ doc.fields.map FieldDoc.name ↔
              ∃ c ∈ same, n ∈ c.fields.map FieldDoc.name) ∧
            doc.fields.find? (·.name = n) =
              (same.flatMap ClassDoc.fields).find? (·.name = n)) ∧
          (∀ n, (n ∈ doc.functions.map FunctionDoc.name ↔
              ∃ c ∈ same, n ∈ c.functions.map FunctionDoc.name) ∧
            doc.functions.find? (·.name = n) =
              (same.flatMap ClassDoc.functions).find? (·.name = n)) ∧
          ∀ text, same.findSome? ClassDoc.text? = some text → doc.description = some text) ∧
      merged.functions = inputs.flatMap NamespaceDoc.functions ∧
      merged.fields = inputs.flatMap NamespaceDoc.fields := by
  intro inputs classes merged
  have hmerged : merged =
      ⟨name, mergeClasses [] classes, inputs.flatMap NamespaceDoc.functions,
        inputs.flatMap NamespaceDoc.fields⟩ := foldl_merge _ _
  rw [hmerged]
  refine ⟨names_mergeClasses classes, ?_, rfl, rfl⟩
  intro doc hdoc same
  -- from here on the class is known as all classes of its name, merged
  have hall : mergeAll same = some doc := mergeAll_of_mem hdoc
  refine ⟨fun n => ⟨?_, ?_⟩, fun n => ⟨?_, ?_⟩, fun text => description_of_mergeAll hall⟩
  · exact mem_names_of_mergeAll FieldDoc.name ClassDoc.fields (fun _ _ => rfl) n hall
  · exact find?_of_mergeAll FieldDoc.name ClassDoc.fields (fun _ _ => rfl) n hall
  · exact mem_names_of_mergeAll FunctionDoc.name ClassDoc.functions (fun _ _ => rfl) n hall
  · exact find?_of_mergeAll FunctionDoc.name ClassDoc.functions (fun _ _ => rfl) n hall

/-- Two sources that declare one class: its field `x` is that of the first, its field `y` and its
description are those of the second. -/
theorem mergeDocs_lossless_two_sources :
    let x₁ : FieldDoc := ⟨['x'], ['i'], false, none⟩
    let x₂ : FieldDoc := ⟨['x'], ['s'], false, none⟩
    let y : FieldDoc := ⟨['y'], ['s'], false, none⟩
    let first : Doc := ⟨[⟨['n'], [⟨['A'], none, [x₁], []⟩], [], []⟩]⟩
    let second : Doc := ⟨[⟨['n'], [⟨['A'], some ['t'], [x₂, y], []⟩], [], []⟩]⟩
    ∃ doc ∈ (mergeDocs ['n'] [first, second]).classes,
      doc.fields.find? (·.name = ['x']) = some x₁ ∧
        ['y'] ∈ doc.fields.map FieldDoc.name ∧ doc.description = some ['t'] := by
  intro x₁ x₂ y first second
  have hmem : (⟨['A'], some ['t'], [x₁, y], []⟩ : ClassDoc) ∈
      (mergeDocs ['n'] [first, second]).classes := by decide
  have h := (mergeDocs_lossless ['n'] [first, second]).2.1 _ hmem
  exact ⟨_, hmem, (h.1 ['x']).2.trans (by decide), (h.1 ['y']).1.mpr (by decide),
    h.2.2 ['t'] (by decide)⟩

end LuaReference
