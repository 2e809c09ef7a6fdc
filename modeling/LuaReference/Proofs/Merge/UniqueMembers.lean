import LuaReference.Project.Sources
import LuaReference.Proofs.Merge.Lossless
import LuaReference.Proofs.Reader.Step
import LuaReference.Proofs.Results

set_option autoImplicit false

/-! # Members of merged sources

Where two or more sources have a class, its members are united, and of each name the first one is
left (`members_foldl_merge`, `nodup_firstByName`). A class of a single source is never united with
anything: it is taken over as it is, with the members that its source repeats
(`repeated_member`). Both are said of whole sources in `documentSources_members`; that a source
has a class once at most is known from the registry it is read into (`exists_parse`). For the same
reason a source that is merged with no other one is documented as it is read for itself
(`documentSources_singleton`).
-/

namespace LuaReference

/-! ## Uniting the members of many classes -/

/-- Of the selected elements no two have the same name. -/
theorem nodup_firstByName {α : Type} (name : α → Text) (xs : List α) :
    ((firstByName name xs).map name).Nodup := by
  induction xs with
  | nil => exact List.nodup_nil
  | cons x xs ih =>
      rw [firstByName, List.map_cons, List.nodup_cons]
      refine ⟨fun hmem => ?_, ih.sublist (List.filter_sublist.map name)⟩
      obtain ⟨y, hy, hname⟩ := List.mem_map.mp hmem
      exact absurd hname (by simpa using (List.mem_filter.mp hy).2)

/-- The members of two or more merged classes are the first ones of each name in all of their
members. The members are the fields or the functions. -/
theorem members_foldl_merge {α : Type} (name : α → Text) (members : ClassDoc → List α)
    (hm : ∀ a b : ClassDoc, members (a.merge b) = firstByName name (members a ++ members b))
    (doc next : ClassDoc) (docs : List ClassDoc) :
    members ((next :: docs).foldl ClassDoc.merge doc) =
      firstByName name ((doc :: next :: docs).flatMap members) := by
  induction docs generalizing doc next with
  | nil => simp [hm]
  | cons third docs ih =>
      rw [List.foldl_cons, ih]
      simp only [List.flatMap_cons, hm, firstByName_append_left, List.append_assoc]

theorem members_of_mergeAll {α : Type} (name : α → Text) (members : ClassDoc → List α)
    (hm : ∀ a b : ClassDoc, members (a.merge b) = firstByName name (members a ++ members b))
    {docs : List ClassDoc} (hlen : 2 ≤ docs.length) {doc : ClassDoc}
    (h : mergeAll docs = some doc) :
    members doc = firstByName name (docs.flatMap members) := by
  match docs with
  | [] => simp at hlen
  | [_] => simp at hlen
  | first :: next :: rest =>
      obtain rfl : (next :: rest).foldl ClassDoc.merge first = doc := Option.some.inj h
      exact members_foldl_merge name members hm first next rest

/-- A class that is merged with no other one stays as it is. -/
theorem eq_singleton_of_mergeAll {docs : List ClassDoc} (hlen : docs.length = 1) {doc : ClassDoc}
    (h : mergeAll docs = some doc) : docs = [doc] := by
  obtain ⟨only, rfl⟩ := List.length_eq_one_iff.mp hlen
  exact congrArg (fun c => [c]) (Option.some.inj h)

/-! ## The classes of a source -/

/-- The classes of all namespaces of a document. -/
def Doc.classes (doc : Doc) : List ClassDoc := doc.namespaces.flatMap NamespaceDoc.classes

/-- Whether a document has a class of that name. -/
def Doc.hasClass (doc : Doc) (name : Text) : Bool := doc.classes.any (·.name = name)

/-- Among documents that have each class once, a class is found as often as there are documents
that have it. -/
theorem length_filter_classes {docs : List Doc}
    (h : ∀ doc ∈ docs, (doc.classes.map ClassDoc.name).Nodup) (name : Text) :
    ((docs.flatMap Doc.classes).filter (·.name = name)).length =
      (docs.filter (·.hasClass name)).length := by
  induction docs with
  | nil => rfl
  | cons doc docs ih =>
      have hcount : (doc.classes.filter (·.name = name)).length =
          if doc.hasClass name then 1 else 0 := by
        have hmem : doc.hasClass name = true ↔ name ∈ doc.classes.map ClassDoc.name := by
          simp [Doc.hasClass]
        calc (doc.classes.filter (·.name = name)).length
            = doc.classes.countP (·.name = name) := List.countP_eq_length_filter.symm
          _ = (doc.classes.map ClassDoc.name).count name := by
              rw [List.count_eq_countP, List.countP_map]
              exact List.countP_congr fun c _ => by simp
          _ = if doc.hasClass name then 1 else 0 := by
              rw [(h doc List.mem_cons_self).count]
              simp only [hmem]
      rw [List.flatMap_cons, List.filter_append, List.length_append, hcount,
        ih fun d hd => h d (List.mem_cons_of_mem _ hd), List.filter_cons]
      split
      · rw [List.length_cons, Nat.add_comm]
      · rw [Nat.zero_add]

/-- The sources of a namespace all have documentation, and each has a class once at most. -/
theorem exists_mapM_parse (name : Text) (sources : List Text) :
    ∃ docs : List Doc, sources.mapM (parse · name) = .ok docs ∧
      ∀ doc ∈ docs, (doc.classes.map ClassDoc.name).Nodup := by
  have hsource (code : Text) :
      ∃ doc, parse code name = .ok doc ∧ (doc.classes.map ClassDoc.name).Nodup := by
    obtain ⟨functions, -, hnd, hparse⟩ := exists_parse code name
    refine ⟨_, hparse, ?_⟩
    rw [Doc.classes, List.flatMap_singleton]
    exact hnd
  obtain ⟨docs, hdocs, hall⟩ := exists_mapM_eq_ok hsource sources
  exact ⟨docs, hdocs, forall_mem_right_of_forall₂ hall fun _ _ hnd => hnd⟩

/-! ## Whole sources -/

/-- **The members of merged sources.** Every class of the merged documentation is known from the
classes of its name, one for each source that has it. If two sources or more have the class, no
two of its fields and no two of its functions share a name, and they are the first ones of each
name in the order of the sources. If one source alone has the class, it is the class of that
source, unchanged. -/
theorem documentSources_members (name : Text) (sources : List Text) :
    ∃ docs : List Doc, sources.mapM (parse · name) = .ok docs ∧
      documentSources name sources = .ok (mergeDocs name docs) ∧
      ∀ doc ∈ (mergeDocs name docs).classes,
        let same := (docs.flatMap Doc.classes).filter (·.name = doc.name)
        let holders := docs.filter (·.hasClass doc.name)
        same.length = holders.length ∧
          (2 ≤ holders.length →
            ((doc.fields.map FieldDoc.name).Nodup ∧
              doc.fields = firstByName FieldDoc.name (same.flatMap ClassDoc.fields)) ∧
            (doc.functions.map FunctionDoc.name).Nodup ∧
              doc.functions = firstByName FunctionDoc.name (same.flatMap ClassDoc.functions)) ∧
          (holders.length = 1 → same = [doc]) := by
  obtain ⟨docs, hdocs, hnd⟩ := exists_mapM_parse name sources
  refine ⟨docs, hdocs, ?_, fun doc hdoc => ?_⟩
  · rw [documentSources, hdocs]
    rfl
  · intro same holders
    have hlen : same.length = holders.length := length_filter_classes hnd doc.name
    have hall : mergeAll same = some doc := by
      have hclasses : doc ∈ mergeClasses [] (docs.flatMap Doc.classes) := by
        rw [mergeDocs, foldl_merge, List.flatMap_assoc] at hdoc
        exact hdoc
      exact mergeAll_of_mem hclasses
    refine ⟨hlen, fun htwo => ?_, fun hone => eq_singleton_of_mergeAll (hlen.trans hone) hall⟩
    have hfields := members_of_mergeAll FieldDoc.name ClassDoc.fields (fun _ _ => rfl)
      (hlen ▸ htwo) hall
    have hfunctions := members_of_mergeAll FunctionDoc.name ClassDoc.functions (fun _ _ => rfl)
      (hlen ▸ htwo) hall
    refine ⟨⟨?_, hfields⟩, ?_, hfunctions⟩
    · rw [hfields]
      exact nodup_firstByName _ _
    · rw [hfunctions]
      exact nodup_firstByName _ _

/-- **A single source is documented as it is read.** A source has documentation in one namespace,
and merging it with nothing else gives this namespace back: its classes in their order with all
members they repeat, and its functions and fields. -/
theorem documentSources_singleton (name code : Text) :
    ∃ doc : NamespaceDoc, parse code name = .ok ⟨[doc]⟩ ∧ mergeDocs name [⟨[doc]⟩] = doc ∧
      documentSources name [code] = .ok doc := by
  obtain ⟨functions, -, hnd, hparse⟩ := exists_parse code name
  -- no class is repeated, so none is merged into another one
  have hclasses := mergeClasses_nil_eq_self_iff.mpr hnd
  have hmerge (doc : NamespaceDoc) (hname : doc.name = name)
      (h : mergeClasses [] doc.classes = doc.classes) : mergeDocs name [⟨[doc]⟩] = doc := by
    simp only [mergeDocs, foldl_merge, List.flatMap_singleton, h, List.nil_append, ← hname]
  refine ⟨_, hparse, hmerge _ rfl hclasses, ?_⟩
  rw [documentSources, List.mapM_cons, hparse]
  exact congrArg Except.ok (hmerge _ rfl hclasses)

/-- A source that declares one function of a class twice. -/
def repeatingSource : Text := "function A.f() end\nfunction A.f() end".toList

/-- A class of a single source keeps a function that the source repeats. -/
theorem repeated_member :
    let f : FunctionDoc := ⟨"f".toList, true, none, [], []⟩
    documentSources "game".toList [repeatingSource] =
        .ok ⟨"game".toList, [⟨"A".toList, none, [], [f, f]⟩], [], []⟩ ∧
      ¬ ([f, f].map FunctionDoc.name).Nodup := by
  decide +kernel

end LuaReference
