import LuaReference.Proofs.Merge.Union

set_option autoImplicit false

/-! # Regrouping documents

Merging takes up one class after another with `absorbClass`. Two facts about it carry the
theory: classes of one name may be merged before they are taken up
(`absorbClass_absorbClass`), and classes of different names may be taken up in either order once
the later one has a place in the list (`absorbClass_comm`). Hence lists of classes are merged
associatively, whatever names they repeat, and so are lists of documents (`mergeDocs_append`).
-/

namespace LuaReference

/-! ## Taking up one class -/

/-- The head of a list takes a class up if it is the last class of that name. -/
def TakesUp (c d : ClassDoc) (rest : List ClassDoc) : Prop :=
  d.name = c.name ∧ c.name ∉ rest.map ClassDoc.name

theorem absorbClass_cons_of_takesUp {c d : ClassDoc} {rest : List ClassDoc}
    (h : TakesUp c d rest) : absorbClass c (d :: rest) = d.merge c :: rest := by
  have hall : ∀ e ∈ rest, e.name ≠ c.name :=
    fun e he hn => h.2 (List.mem_map.mpr ⟨e, he, hn⟩)
  have hall' : rest.all (·.name ≠ c.name) = true := by simpa using hall
  rw [absorbClass, hall', Bool.and_true, if_pos (by simpa using h.1)]

theorem absorbClass_cons_of_not_takesUp {c d : ClassDoc} {rest : List ClassDoc}
    (h : ¬ TakesUp c d rest) : absorbClass c (d :: rest) = d :: absorbClass c rest := by
  rw [absorbClass, if_neg]
  intro hif
  simp only [Bool.and_eq_true, decide_eq_true_eq, List.all_eq_true] at hif
  refine h ⟨hif.1, fun hmem => ?_⟩
  obtain ⟨e, he, hn⟩ := List.mem_map.mp hmem
  exact hif.2 e he hn

/-- Taking up a class adds its name and no other one. -/
theorem mem_names_absorbClass (n : Text) (c : ClassDoc) (classes : List ClassDoc) :
    n ∈ (absorbClass c classes).map ClassDoc.name ↔
      n = c.name ∨ n ∈ classes.map ClassDoc.name := by
  induction classes with
  | nil => simp [absorbClass]
  | cons d rest ih =>
      by_cases h : TakesUp c d rest
      · rw [absorbClass_cons_of_takesUp h, List.map_cons, List.map_cons, List.mem_cons,
          List.mem_cons, ClassDoc.merge_name, h.1]
        tauto
      · rw [absorbClass_cons_of_not_takesUp h, List.map_cons, List.map_cons, List.mem_cons,
          List.mem_cons, ih]
        tauto

/-- Taking up a class keeps the names of the list in order; a new name comes last. -/
theorem names_absorbClass (c : ClassDoc) (classes : List ClassDoc) :
    (absorbClass c classes).map ClassDoc.name =
      if c.name ∈ classes.map ClassDoc.name then classes.map ClassDoc.name
      else classes.map ClassDoc.name ++ [c.name] := by
  induction classes with
  | nil => simp [absorbClass]
  | cons d rest ih =>
      by_cases h : TakesUp c d rest
      · rw [absorbClass_cons_of_takesUp h, List.map_cons, List.map_cons, ClassDoc.merge_name,
          if_pos (List.mem_cons.mpr (Or.inl h.1.symm))]
      · rw [absorbClass_cons_of_not_takesUp h, List.map_cons, List.map_cons, ih]
        by_cases hr : c.name ∈ rest.map ClassDoc.name
        · rw [if_pos hr, if_pos (List.mem_cons_of_mem _ hr)]
        · have hd : c.name ≠ d.name := fun hd => h ⟨hd.symm, hr⟩
          rw [if_neg hr, if_neg (by simp only [List.mem_cons, hd, hr, or_self, not_false_eq_true]),
            List.cons_append]

/-- A class of a new name comes last. -/
theorem absorbClass_of_not_mem {c : ClassDoc} {classes : List ClassDoc}
    (h : c.name ∉ classes.map ClassDoc.name) : absorbClass c classes = classes ++ [c] := by
  induction classes with
  | nil => rfl
  | cons d rest ih =>
      rw [List.map_cons, List.mem_cons, not_or] at h
      rw [absorbClass_cons_of_not_takesUp (fun hd => h.1 hd.1.symm), ih h.2, List.cons_append]

/-! ## Taking up two classes -/

/-- Taking up two classes of one name is taking up the two merged. -/
theorem absorbClass_absorbClass {c d : ClassDoc} (h : d.name = c.name)
    (classes : List ClassDoc) :
    absorbClass c (absorbClass d classes) = absorbClass (d.merge c) classes := by
  induction classes with
  | nil => exact absorbClass_cons_of_takesUp ⟨h, by simp⟩
  | cons e rest ih =>
      by_cases he : TakesUp d e rest
      · have hc : TakesUp c (e.merge d) rest := ⟨he.1.trans h, h ▸ he.2⟩
        have hm : TakesUp (d.merge c) e rest := he
        calc absorbClass c (absorbClass d (e :: rest))
            = absorbClass c (e.merge d :: rest) := by rw [absorbClass_cons_of_takesUp he]
          _ = (e.merge d).merge c :: rest := absorbClass_cons_of_takesUp hc
          _ = e.merge (d.merge c) :: rest := by rw [ClassDoc.merge_assoc]
          _ = absorbClass (d.merge c) (e :: rest) := (absorbClass_cons_of_takesUp hm).symm
      · -- the name now occurs behind the head, so the head does not take up the next class either
        have hd : c.name ∈ (absorbClass d rest).map ClassDoc.name :=
          (mem_names_absorbClass _ _ _).mpr (Or.inl h.symm)
        have hm : ¬ TakesUp (d.merge c) e rest := he
        rw [absorbClass_cons_of_not_takesUp he, absorbClass_cons_of_not_takesUp hm,
          absorbClass_cons_of_not_takesUp (fun hc => hc.2 hd), ih]

/-- Whether a class is taken up by the head does not hang on classes of other names behind. -/
theorem takesUp_absorbClass {c d : ClassDoc} (hne : c.name ≠ d.name) (e : ClassDoc)
    (rest : List ClassDoc) : TakesUp c e (absorbClass d rest) ↔ TakesUp c e rest := by
  rw [TakesUp, TakesUp, mem_names_absorbClass, or_iff_right hne]

/-- Two classes of different names can be taken up in either order if the first of them has a
place in the list already. -/
theorem absorbClass_comm {c d : ClassDoc} (hne : c.name ≠ d.name) {classes : List ClassDoc}
    (hc : c.name ∈ classes.map ClassDoc.name) :
    absorbClass d (absorbClass c classes) = absorbClass c (absorbClass d classes) := by
  induction classes with
  | nil => simp at hc
  | cons e rest ih =>
      have hce := takesUp_absorbClass hne e rest
      have hde := takesUp_absorbClass hne.symm e rest
      by_cases hec : TakesUp c e rest
      · -- the first class goes into the head, which the second one passes by
        have hed : ¬ TakesUp d e rest := fun h => hne (hec.1.symm.trans h.1)
        have hed' : ¬ TakesUp d (e.merge c) rest := hed
        calc absorbClass d (absorbClass c (e :: rest))
            = absorbClass d (e.merge c :: rest) := by rw [absorbClass_cons_of_takesUp hec]
          _ = e.merge c :: absorbClass d rest := absorbClass_cons_of_not_takesUp hed'
          _ = absorbClass c (e :: absorbClass d rest) :=
              (absorbClass_cons_of_takesUp (hce.mpr hec)).symm
          _ = absorbClass c (absorbClass d (e :: rest)) := by
              rw [absorbClass_cons_of_not_takesUp hed]
      · have hrest : c.name ∈ rest.map ClassDoc.name := by
          rcases List.mem_cons.mp hc with h | h
          · by_contra hn
            exact hec ⟨h.symm, hn⟩
          · exact h
        by_cases hed : TakesUp d e rest
        · have hec' : ¬ TakesUp c (e.merge d) rest := hec
          calc absorbClass d (absorbClass c (e :: rest))
              = absorbClass d (e :: absorbClass c rest) := by
                rw [absorbClass_cons_of_not_takesUp hec]
            _ = e.merge d :: absorbClass c rest := absorbClass_cons_of_takesUp (hde.mpr hed)
            _ = absorbClass c (e.merge d :: rest) := (absorbClass_cons_of_not_takesUp hec').symm
            _ = absorbClass c (absorbClass d (e :: rest)) := by
                rw [absorbClass_cons_of_takesUp hed]
        · -- both classes pass the head by
          calc absorbClass d (absorbClass c (e :: rest))
              = absorbClass d (e :: absorbClass c rest) := by
                rw [absorbClass_cons_of_not_takesUp hec]
            _ = e :: absorbClass d (absorbClass c rest) :=
                absorbClass_cons_of_not_takesUp fun h => hed (hde.mp h)
            _ = e :: absorbClass c (absorbClass d rest) := by rw [ih hrest]
            _ = absorbClass c (e :: absorbClass d rest) :=
                (absorbClass_cons_of_not_takesUp fun h => hec (hce.mp h)).symm
            _ = absorbClass c (absorbClass d (e :: rest)) := by
                rw [absorbClass_cons_of_not_takesUp hed]

/-! ## Merging lists of classes -/

theorem mergeClasses_append (existing first second : List ClassDoc) :
    mergeClasses existing (first ++ second) = mergeClasses (mergeClasses existing first) second :=
  List.foldl_append

/-- A class with a place in the list is taken up before or behind classes of other names. -/
theorem mergeClasses_absorbClass {c : ClassDoc} {classes : List ClassDoc}
    (hc : c.name ∈ classes.map ClassDoc.name) {incoming : List ClassDoc}
    (hn : c.name ∉ incoming.map ClassDoc.name) :
    mergeClasses (absorbClass c classes) incoming =
      absorbClass c (mergeClasses classes incoming) := by
  induction incoming generalizing classes with
  | nil => rfl
  | cons d rest ih =>
      rw [List.map_cons, List.mem_cons, not_or] at hn
      show mergeClasses (absorbClass d (absorbClass c classes)) rest =
        absorbClass c (mergeClasses (absorbClass d classes) rest)
      rw [absorbClass_comm hn.1 hc]
      exact ih ((mem_names_absorbClass _ _ _).mpr (Or.inr hc)) hn.2

/-- Taking a class up into the incoming list first changes nothing. -/
theorem mergeClasses_absorbClass_right (c : ClassDoc) (existing incoming : List ClassDoc) :
    mergeClasses existing (absorbClass c incoming) =
      absorbClass c (mergeClasses existing incoming) := by
  induction incoming generalizing existing with
  | nil => rfl
  | cons d rest ih =>
      by_cases h : TakesUp c d rest
      · -- the merged pair is taken up here, the classes behind it bear other names
        rw [absorbClass_cons_of_takesUp h]
        have hmem : c.name ∈ (absorbClass d existing).map ClassDoc.name :=
          (mem_names_absorbClass _ _ _).mpr (Or.inl h.1.symm)
        calc mergeClasses existing (d.merge c :: rest)
            = mergeClasses (absorbClass (d.merge c) existing) rest := rfl
          _ = mergeClasses (absorbClass c (absorbClass d existing)) rest := by
              rw [absorbClass_absorbClass h.1]
          _ = absorbClass c (mergeClasses (absorbClass d existing) rest) :=
              mergeClasses_absorbClass hmem h.2
      · rw [absorbClass_cons_of_not_takesUp h]
        exact ih (absorbClass d existing)

/-- Lists of classes are merged associatively. The induction takes the last list up one class
at a time. -/
theorem mergeClasses_assoc (first second third : List ClassDoc) :
    mergeClasses (mergeClasses first second) third =
      mergeClasses first (mergeClasses second third) := by
  induction third generalizing second with
  | nil => rfl
  | cons c rest ih =>
      calc mergeClasses (mergeClasses first second) (c :: rest)
          = mergeClasses (absorbClass c (mergeClasses first second)) rest := rfl
        _ = mergeClasses (mergeClasses first (absorbClass c second)) rest := by
            rw [mergeClasses_absorbClass_right]
        _ = mergeClasses first (mergeClasses (absorbClass c second) rest) := ih _

/-! ## Merging documents -/

/-- Merging namespaces one after the other joins their members and takes up all of their
classes in order. -/
theorem foldl_merge (doc : NamespaceDoc) (docs : List NamespaceDoc) :
    docs.foldl NamespaceDoc.merge doc =
      { name := doc.name
        classes := mergeClasses doc.classes (docs.flatMap NamespaceDoc.classes)
        functions := doc.functions ++ docs.flatMap NamespaceDoc.functions
        fields := doc.fields ++ docs.flatMap NamespaceDoc.fields } := by
  induction docs generalizing doc with
  | nil => simp [mergeClasses]
  | cons next docs ih =>
      rw [List.foldl_cons, ih]
      simp only [NamespaceDoc.merge, List.flatMap_cons, mergeClasses_append, List.append_assoc]

/-- **Regrouping.** Documents may be merged in two groups and the results merged: the grouping
changes nothing, because classes and lists of classes are merged associatively. -/
theorem mergeDocs_append (name : Text) (first second : List Doc) :
    mergeDocs name (first ++ second) = (mergeDocs name first).merge (mergeDocs name second) ∧
      (∀ a b c : ClassDoc, (a.merge b).merge c = a.merge (b.merge c)) ∧
      ∀ a b c : List ClassDoc,
        mergeClasses (mergeClasses a b) c = mergeClasses a (mergeClasses b c) := by
  refine ⟨?_, ClassDoc.merge_assoc, mergeClasses_assoc⟩
  simp only [mergeDocs, foldl_merge, NamespaceDoc.merge, List.flatMap_append, List.nil_append]
  rw [mergeClasses_append, ← mergeClasses_assoc]
  rfl

end LuaReference
