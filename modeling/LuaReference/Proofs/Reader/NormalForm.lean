import LuaReference.Project.Sources
import LuaReference.Proofs.Reader.Step
import LuaReference.Proofs.Results
import LuaReference.Proofs.Tag.BlockReading

set_option autoImplicit false

/-! # All documentation is in normal form

Every value that a line writes into the registry has been finished, and it has a name that was read
as one, so that the change is one to the normal form (`Reader.isNormal_of_writes`). A registry that
takes such changes stays in normal form, and so does the namespace that the sources are merged into
(`documentSources_isNormal`).
-/

namespace LuaReference

/-! ## What is read from code -/

namespace EnumTable

theorem isNormal_value {name : Text} (h : Text.IsWord name) (types : List Text) :
    (value name types).IsNormal := by
  rw [value]
  split
  · exact FieldDoc.isNormal_finish h.isTrimmed
  · exact FieldDoc.isNormal_finish h.isTrimmed

theorem isWord_of_entryName? {line name : Text} (h : entryName? line = some name) :
    Text.IsWord name := by
  obtain ⟨found, hfound, rfl⟩ := Option.map_eq_some_iff.mp h
  obtain ⟨behind, -, hread⟩ := exists_of_search hfound
  rw [Declaration.entry?] at hread
  obtain ⟨⟨word, rest⟩, hword, hread⟩ := Option.bind_eq_some_iff.mp hread
  simp only at hread
  split at hread
  · obtain ⟨rfl, -⟩ := Prod.mk.inj (Option.some.inj hread)
    exact (Text.eq_append_of_word? hword).2
  · cases hread

theorem isNormal_codeLine (depth : Nat) (types : List Text) (line : Text) :
    ∀ field ∈ (codeLine depth types line).values, field.IsNormal := by
  rw [codeLine]
  split
  · simp
  · rename_i name hname
    rw [Option.ite_none_right_eq_some] at hname
    rw [List.forall_mem_singleton]
    exact isNormal_value (isWord_of_entryName? hname.2) types

theorem isNormal_openingLine? {types : List Text} {line : Text} {progress : Progress}
    (h : openingLine? types line = some progress) : ∀ field ∈ progress.values, field.IsNormal := by
  obtain ⟨body, -, rfl⟩ := Option.map_eq_some_iff.mp h
  split
  · simp
  · exact isNormal_codeLine 0 types body

theorem isNormal_start (line : Text) : ∀ field ∈ (start line).values, field.IsNormal := by
  rw [start]
  cases hopen : openingLine? [] line with
  | none => simp
  | some progress => exact isNormal_openingLine? hopen

theorem isNormal_step (table : EnumTable) (line : Text) :
    ∀ field ∈ (table.step line).values, field.IsNormal := by
  rw [step]
  split
  · split
    · rename_i progress hopen
      exact isNormal_openingLine? hopen
    · simp
  · split
    · simp
    · split
      · simp
      · split
        · simp
        · exact isNormal_codeLine _ _ _

end EnumTable

/-- The names in a parameter list are trimmed. -/
theorem Declaration.isTrimmed_of_mem_paramNames {params name : Text}
    (h : name ∈ paramNames params) : IsTrimmed name := by
  obtain ⟨hmem, hne⟩ := List.mem_filter.mp h
  obtain ⟨part, -, rfl⟩ := List.mem_map.mp hmem
  exact isTrimmed_trim (by simpa using hne)

/-- What is read as a function header has a name. -/
theorem Declaration.isWord_of_headerOf? {line : Text} {header : FunctionHeader}
    (h : headerOf? line = some header) : Text.IsWord header.name := by
  obtain ⟨found, hfound, rfl⟩ := Option.map_eq_some_iff.mp h
  obtain ⟨behind, -, hread⟩ := exists_of_search hfound
  exact (eq_headerText_of_header? hread).1.name

/-- A path is written without blanks. -/
theorem IsPath.isTrimmed {path : List Text} (h : IsPath path) : IsTrimmed (dotted path) := by
  cases path with
  | nil => exact absurd rfl h.ne_nil
  | cons word more =>
      have hword : Text.IsWord word := h.words word List.mem_cons_self
      have hinside {part : Text} (hp : part ∈ word :: more) {c : Char} (hc : c ∈ part) :
          isBlank c = false := isBlank_eq_false_of_isWord ((h.words part hp).chars c hc)
      rw [dotted_eq]
      refine isTrimmed_of_not_blank (by simp [hword.ne_nil]) fun c hc => ?_
      rcases List.mem_append.mp hc with hc | hc
      · exact hinside List.mem_cons_self hc
      · obtain ⟨part, hpart, hc⟩ := List.mem_flatMap.mp hc
        rcases List.mem_cons.mp hc with rfl | hc
        · decide
        · exact hinside (List.mem_cons_of_mem _ hpart) hc

/-! ## What is written into a registry -/

/-- A change of a class to the normal form. -/
def ClassChange.IsNormal : ClassChange → Prop
  | .describe _ => True
  | .addFields fields => ∀ field ∈ fields, field.IsNormal
  | .addFunction function => function.IsNormal

theorem ClassDoc.IsNormal.apply {doc : ClassDoc} (h : doc.IsNormal) {change : ClassChange}
    (hc : change.IsNormal) : (change.apply doc).IsNormal := by
  cases change with
  | describe description => exact h.describe description
  | addFields fields =>
      refine ⟨h.name, h.description, fun field hf => ?_, h.functions⟩
      rcases List.mem_append.mp hf with hf | hf
      · exact h.fields field hf
      · exact hc field hf
  | addFunction function =>
      refine ⟨h.name, h.description, h.fields, fun other ho => ?_⟩
      rcases List.mem_append.mp ho with ho | ho
      · exact h.functions other ho
      · rwa [List.mem_singleton.mp ho]

namespace Registry

/-- A change to the normal form. -/
def Change.IsNormal : Change → Prop
  | .inClass name change => IsTrimmed name ∧ change.IsNormal
  | .addFunction function => function.IsNormal
  | .addField field => field.IsNormal
  | .addLocal _ => True

/-- A registry all of whose documentation is in normal form. A function outside of classes is
only a draft, so it counts what can be built from it. -/
structure IsNormal (registry : Registry) : Prop where
  classes : ∀ doc ∈ registry.classes, doc.IsNormal
  functions : ∀ draft ∈ registry.functions, ∀ function, draft.build = .ok function →
    function.IsNormal
  fields : ∀ field ∈ registry.fields, field.IsNormal

theorem isNormal_updateClass {name : Text} (hname : IsTrimmed name) {change : ClassChange}
    (hc : change.IsNormal) {classes : List ClassDoc} (h : ∀ doc ∈ classes, doc.IsNormal) :
    ∀ doc ∈ updateClass name change.apply classes, doc.IsNormal := by
  induction classes with
  | nil =>
      rw [updateClass, List.forall_mem_singleton]
      have hnew : ClassDoc.IsNormal ⟨name, none, [], []⟩ :=
        ⟨hname, by simp [IsClean], by simp, by simp⟩
      exact hnew.apply hc
  | cons first rest ih =>
      rw [List.forall_mem_cons] at h
      rw [updateClass]
      split
      · exact List.forall_mem_cons.mpr ⟨h.1.apply hc, h.2⟩
      · exact List.forall_mem_cons.mpr ⟨h.1, ih h.2⟩

theorem IsNormal.apply {registry : Registry} (h : registry.IsNormal) {change : Change}
    (hc : change.IsNormal) : (registry.apply change).IsNormal := by
  cases change with
  | inClass name change =>
      exact ⟨isNormal_updateClass hc.1 hc.2 h.classes, h.functions, h.fields⟩
  | addFunction function =>
      refine ⟨h.classes, fun draft hd built hbuilt => ?_, h.fields⟩
      rcases List.mem_append.mp hd with hd | hd
      · exact h.functions draft hd built hbuilt
      · obtain rfl := List.mem_singleton.mp hd
        rw [← Except.ok.inj hbuilt]
        exact FunctionDoc.IsNormal.finish hc
  | addField field =>
      refine ⟨h.classes, h.functions, fun other ho => ?_⟩
      rcases List.mem_append.mp ho with ho | ho
      · exact h.fields other ho
      · rwa [List.mem_singleton.mp ho]
  | addLocal name =>
      rw [Registry.apply, addLocal]
      split
      · exact h
      · exact ⟨h.classes, h.functions, h.fields⟩

theorem IsNormal.changes {old new : Registry} (h : old.IsNormal)
    (hc : ChangesBy Change.IsNormal old new) : new.IsNormal := by
  obtain ⟨changes, rfl, hall⟩ := hc
  induction changes generalizing old with
  | nil => exact h
  | cons change changes ih =>
      rw [List.forall_mem_cons] at hall
      exact ih (h.apply hall.1) hall.2

end Registry

/-! ## What a line writes -/

namespace Reader

open Registry (Change)

theorem paramDoc_name (block : Block) (name : Text) : (paramDoc block name).name = name := by
  rw [paramDoc, Block.findParam?]
  cases hfound : block.params.find? (·.name = name) with
  | none => rfl
  | some entry =>
      have hname : entry.name = name := by simpa using List.find?_some hfound
      exact hname

theorem isNormal_paramDoc (block : Block) {name : Text} (h : IsTrimmed name) :
    (paramDoc block name).IsNormal := by
  refine ⟨?_, isClean_cleanDescription _⟩
  rwa [paramDoc_name]

theorem isNormal_functionDoc {block : Block} (hblock : block.WellNamed) {header : FunctionHeader}
    (hname : Text.IsWord header.name) (returnsValue : Bool) :
    (functionDoc block header returnsValue).IsNormal := by
  refine ⟨hname.isTrimmed, isClean_cleanDescription _, fun param hp => ?_, fun value hv => ?_⟩
  · obtain ⟨name, hmem, rfl⟩ := List.mem_map.mp hp
    exact isNormal_paramDoc block (Declaration.isTrimmed_of_mem_paramNames hmem)
  · have hany : (ReturnEntry.finish ⟨anyType, none, none⟩).IsNormal :=
      ReturnEntry.isNormal_finish (by simp)
    simp only [functionDoc, FunctionDoc.finish] at hv
    split at hv
    · split at hv
      · rwa [List.mem_singleton.mp hv]
      · cases hv
    · obtain ⟨entry, he, rfl⟩ := List.mem_map.mp hv
      exact ReturnEntry.isNormal_finish (hblock.returns entry he)

/-- A state of reading with all documentation in normal form; the class of an open table has a
name. -/
structure IsNormal (reader : Reader) : Prop where
  registry : reader.registry.IsNormal
  table : ∀ name table, reader.table = some (name, table) → IsTrimmed name

theorem isNormal_empty : IsNormal {} := ⟨⟨by simp, by simp, by simp⟩, by simp⟩

/-- **What a line writes is in normal form.** -/
theorem isNormal_of_writes {reader : Reader} (h : reader.IsNormal) {line : Text} {change : Change}
    (hw : Writes reader line change) : change.IsNormal := by
  have hblock : (Block.ofLines reader.pending).WellNamed := Block.wellNamed_ofLines _
  have hdecl {decl : ClassDecl} (hd : declared? reader line = some decl) : IsTrimmed decl.name :=
    hblock.classDecl decl (closes_of_declared? hd).2.2
  cases hw with
  | addLocal isLocal target => trivial
  | describe declared => exact ⟨hdecl declared, trivial⟩
  | listFields declared =>
      refine ⟨hdecl declared, fun field hf => ?_⟩
      obtain ⟨entry, he, rfl⟩ := List.mem_map.mp hf
      exact FieldDoc.isNormal_finish (hblock.fields entry he).isTrimmed
  | openTable declared => exact ⟨hdecl declared, EnumTable.isNormal_start _⟩
  | @tableLine name table inside => exact ⟨h.table name table inside, EnumTable.isNormal_step _ _⟩
  | @classField owner name decl typed target visible =>
      have hpath := Declaration.isPath_of_target? target
      refine ⟨(hpath.words owner (by simp)).isTrimmed, List.forall_mem_singleton.mpr ?_⟩
      exact FieldDoc.isNormal_finish (hpath.words name (by simp)).isTrimmed
  | @field name decl typed target visible =>
      have hpath := Declaration.isPath_of_target? target
      exact FieldDoc.isNormal_finish (hpath.words name (by simp)).isTrimmed
  | @classFunction header owner returnsValue found owned visible =>
      exact ⟨(Declaration.isPath_of_headerOf? found owned).isTrimmed,
        isNormal_functionDoc hblock (Declaration.isWord_of_headerOf? found) returnsValue⟩
  | @function header returnsValue found owned =>
      exact isNormal_functionDoc hblock (Declaration.isWord_of_headerOf? found) returnsValue

/-- Reading a line keeps the normal form. -/
theorem IsNormal.step {reader : Reader} (h : reader.IsNormal) (line : Text) (rest : List Text) :
    (step reader line rest).IsNormal := by
  have hregistry : (Reader.step reader line rest).registry.IsNormal :=
    h.registry.changes ((writes_step reader line rest).mono fun _ hw => isNormal_of_writes h hw)
  refine ⟨hregistry, fun name table htable => ?_⟩
  -- the class of a table that is open is known, and so it is in normal form
  obtain ⟨doc, hdoc, rfl⟩ := List.mem_map.mp (table_step htable).1
  exact (hregistry.classes doc hdoc).name

theorem isNormal_run {reader : Reader} (h : reader.IsNormal) (lines : List Text) :
    (run reader lines).IsNormal := by
  induction lines generalizing reader with
  | nil => exact h
  | cons line lines ih => exact ih (h.step line lines)

end Reader

/-! ## Whole sources -/

/-- A source is documented in normal form. -/
theorem exists_isNormal_parse (code namespaceName : Text) :
    ∃ doc, parse code namespaceName = .ok doc ∧
      ∀ namespaceDoc ∈ doc.namespaces, namespaceDoc.IsNormal := by
  have hregistry := (Reader.isNormal_run Reader.isNormal_empty (Text.lines code)).registry
  obtain ⟨functions, hdrafts, hdistinct, hparse⟩ := exists_parse code namespaceName
  refine ⟨_, hparse, List.forall_mem_singleton.mpr ⟨hdistinct, hregistry.classes, ?_,
    hregistry.fields⟩⟩
  intro function hf
  obtain ⟨draft, hdraft, rfl⟩ := List.mem_map.mp hf
  refine hregistry.functions draft.draft ?_ _ rfl
  rw [hdrafts]
  exact List.mem_map_of_mem hdraft

/-- **All documentation is in normal form.** The sources of a namespace have documentation with
each class once, in which every name of a class, a field, a function or a parameter is a trimmed
text, the name of a returned value has word characters only, and every description is absent or a
trimmed text. -/
theorem documentSources_isNormal (name : Text) (sources : List Text) :
    ∃ doc, documentSources name sources = .ok doc ∧ doc.IsNormal := by
  obtain ⟨docs, hdocs, hall⟩ := exists_mapM_eq_ok
    (fun code => exists_isNormal_parse code name) sources
  refine ⟨mergeDocs name docs, ?_, NamespaceDoc.isNormal_mergeDocs ?_ name⟩
  · rw [documentSources, hdocs]
    rfl
  · exact forall_mem_right_of_forall₂ hall fun _ _ hnormal => hnormal

end LuaReference
