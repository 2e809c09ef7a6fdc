import LuaReference.Proofs.Drafts.Reader
import LuaReference.Proofs.Reader.NormalForm

set_option autoImplicit false

/-! # No check fails

Whatever the line, a step of the reader with checks gives a result, and that agrees with the step of
the plain reader (`ReaderDraft.Agrees.step`): their blocks say the same, their registries build the
same, and the same table is open. So whatever the source, no value that is built lacks a required
part, no group that is used as a text has caught nothing, and the text behind a brace is asked only
of a line that has one (`no_check_fails`).
-/

namespace LuaReference

/-- What is finished stays as it is. -/
theorem FunctionDoc.finish_finish (function : FunctionDoc) :
    function.finish.finish = function.finish := by
  have hclean := (isClean_cleanDescription function.description).cleanDescription_eq
  simp only [FunctionDoc.finish, hclean]

namespace ReaderDraft

section Registries

variable {draft : RegistryDraft} {registry : Registry}

/-! ## What a block documents -/

theorem commitClass_agrees (h : draft.Agrees registry) (block : Block) :
    ∃ next, commitClass draft block.draft = .ok next ∧
      next.Agrees (Reader.commitClass registry block) := by
  rw [commitClass, Reader.commitClass, Block.draft]
  cases block.classDecl with
  | none => exact ⟨draft, rfl, h⟩
  | some decl =>
      have hfields : (block.fields.map FieldDoc.draft).mapM FieldDraft.build =
          .ok (block.fields.map FieldDoc.finish) := mapM_map_eq_ok fun field _ => field.build_draft
      simp only [Option.map_some, hfields, built_ok, ok_bind]
      exact ⟨_, rfl, (h.describe decl.name _).addClassFields decl.name _⟩

theorem commitField_agrees (h : draft.Agrees registry) (decl : TypeDecl) (line : Text) :
    ∃ next, commitField draft decl.draft line = .ok next ∧
      next.Agrees (Reader.commitField registry decl line) := by
  rw [commitField, Reader.commitField, Declaration.targetGroups?]
  split
  · exact ⟨draft, rfl, h⟩
  · cases htarget : Declaration.target? line with
    | none => exact ⟨draft, rfl, h⟩
    | some path =>
        have hpath : IsPath path := Declaration.isPath_of_target? htarget
        have hcaught : caught [some (dotted path)] 1 = .ok (dotted path) := rfl
        simp only [Option.map_some, hcaught, ok_bind, splitAtEach_dotted hpath, h.isHidden]
        -- paths of one word and of two words are documented, longer ones are not
        rcases path with _ | ⟨first, _ | ⟨second, _ | ⟨third, more⟩⟩⟩
        · exact absurd rfl hpath.ne_nil
        · have hname : dotted [first] = first := rfl
          simp only [hname]
          cases registry.isHidden first with
          | true => exact ⟨draft, rfl, h⟩
          | false => exact ⟨_, rfl, h.addField _⟩
        · simp only
          cases registry.isHidden (dotted [first, second]) with
          | true => exact ⟨draft, rfl, h⟩
          | false =>
              cases registry.isHidden first with
              | true => exact ⟨draft, rfl, h⟩
              | false => exact ⟨_, rfl, h.addClassFields first _⟩
        · cases registry.isHidden (dotted (first :: second :: third :: more)) <;>
            exact ⟨draft, rfl, h⟩

/-- The parameter that a block documents is built from its draft. -/
theorem build_paramDraft (block : Block) (name : Text) :
    (paramDraft block.draft name).build = .ok (Reader.paramDoc block name) := by
  have hname : (fun entry : ParamEntry => decide (entry.draft.name = some name)) =
      fun entry => decide (entry.name = name) := by
    funext entry
    simp [ParamEntry.draft]
  have hfind : block.draft.params.find? (·.name = some name) =
      (block.findParam? name).map ParamEntry.draft := by
    simp only [Block.draft, List.find?_map, Function.comp_def, hname, Block.findParam?]
  rw [paramDraft, Reader.paramDoc, hfind]
  cases block.findParam? name <;> rfl

/-- So are the returned values. -/
theorem build_returnDrafts (block : Block) (header : FunctionHeader) (returnsValue : Bool) :
    (returnDrafts block.draft returnsValue).mapM ReturnDraft.build =
      .ok (Reader.functionDoc block header returnsValue).returns := by
  rw [returnDrafts, Reader.functionDoc, Block.draft]
  cases hreturns : block.returns with
  | nil => cases returnsValue <;> rfl
  | cons first more =>
      have hbuild : ((first :: more).map ReturnEntry.draft).mapM ReturnDraft.build =
          .ok ((first :: more).map ReturnEntry.finish) :=
        mapM_map_eq_ok fun entry _ => entry.build_draft
      simpa [FunctionDoc.finish] using hbuild

theorem separator_all (header : FunctionHeader) :
    (group header.groups 2).all (· = ['.']) = header.owner.all (·.separator = .dot) := by
  simp only [FunctionHeader.groups, group]
  cases header.owner with
  | none => rfl
  | some owner =>
      obtain ⟨path, separator⟩ := owner
      cases separator <;> rfl

/-- And so is the function. -/
theorem draft_functionOutline (block : Block) (header : FunctionHeader) (returnsValue : Bool) :
    ∃ function, (functionOutline block.draft header.groups returnsValue).draft = .ok function ∧
      function.build = .ok (Reader.functionDoc block header returnsValue) := by
  have hparams : ((Declaration.paramNames header.params).map (paramDraft block.draft)).mapM
      ParamDraft.build = .ok (Reader.functionDoc block header returnsValue).params :=
    mapM_map_eq_ok fun name _ => build_paramDraft block name
  have hreturns := build_returnDrafts block header returnsValue
  have hnames : (group header.groups 4).getD [] = header.params := rfl
  simp only [FunctionOutline.draft, functionOutline, hnames, hparams, hreturns, separator_all,
    ok_bind]
  exact ⟨_, rfl, rfl⟩

theorem isHiddenOwner_agrees (h : draft.Agrees registry) {line : Text} {header : FunctionHeader}
    (hheader : Declaration.headerOf? line = some header) :
    isHiddenOwner draft (group header.groups 1) = Reader.isHiddenOwner registry header.owner := by
  simp only [isHiddenOwner, Reader.isHiddenOwner, FunctionHeader.groups, group]
  cases howner : header.owner with
  | none => rfl
  | some owner =>
      have hpath : IsPath owner.path := Declaration.isPath_of_headerOf? hheader howner
      simp [splitAtEach_dotted hpath, h.isHidden]

theorem addFunction_agrees (h : draft.Agrees registry) (header : FunctionHeader)
    {function : FunctionDraft} {doc : FunctionDoc} (hbuild : function.build = .ok doc)
    (hfinished : doc.finish = doc) :
    ∃ next, addFunction draft (group header.groups 1) function = .ok next ∧
      next.Agrees (Reader.addFunction registry header.owner doc) := by
  simp only [addFunction, Reader.addFunction, FunctionHeader.groups, group]
  cases header.owner with
  | none =>
      -- the plain reader keeps the function finished and finishes it once more in the end
      refine ⟨_, rfl, h.addFunction ?_⟩
      have hdoc : doc.draft.build = .ok doc.finish := rfl
      rw [hbuild, hdoc, hfinished]
  | some owner =>
      refine ⟨draft.addClassFunction (some (dotted owner.path)) doc, ?_, h.addClassFunction _ _⟩
      simp [hbuild]

theorem commitFunction_agrees (h : draft.Agrees registry) (block : Block) (line : Text)
    (rest : List Text) :
    ∃ next, commitFunction draft block.draft line rest = .ok next ∧
      next.Agrees (Reader.commitFunction registry block line rest) := by
  rw [commitFunction, Reader.commitFunction, Declaration.headerGroups?_eq]
  split
  · exact ⟨draft, rfl, h⟩
  · cases hheader : Declaration.headerOf? line with
    | none => exact ⟨draft, rfl, h⟩
    | some header =>
        simp only [Option.map_some, isHiddenOwner_agrees h hheader]
        split
        · exact ⟨draft, rfl, h⟩
        · obtain ⟨function, hdraft, hbuild⟩ :=
            draft_functionOutline block header (Returns.afterLine line rest)
          simp only [hdraft, built_ok, ok_bind]
          exact addFunction_agrees h header hbuild (FunctionDoc.finish_finish _)

/-! ## Lines -/

theorem recordLocal_agrees (h : draft.Agrees registry) (line : Text) :
    ∃ next, recordLocal draft line = .ok next ∧
      next.Agrees (Reader.recordLocal registry line) := by
  rw [recordLocal, Reader.recordLocal, Declaration.targetGroups?]
  split
  · cases Declaration.target? line with
    | none => exact ⟨draft, rfl, h⟩
    | some path => exact ⟨_, rfl, h.addLocal _⟩
  · exact ⟨draft, rfl, h⟩

end Registries

/-- A state of reading in drafts that agrees with a state of the plain reader: the same comments are
pending, the same table is open, and the registries agree. -/
structure Agrees (draft : ReaderDraft) (reader : Reader) : Prop where
  registry : draft.registry.Agrees reader.registry
  pending : draft.pending = reader.pending
  table : draft.table = reader.table.map fun (name, table) => (some name, table)

theorem startTable_agrees {draft : RegistryDraft} {registry : Registry} (h : draft.Agrees registry)
    (name line : Text) :
    ∃ next, startTable draft (some name) line = .ok next ∧
      next.Agrees (Reader.startTable registry name line) := by
  rw [startTable, EnumTable.checkedStart_eq, ok_bind]
  refine ⟨_, rfl, h.addClassFields name _, rfl, ?_⟩
  simp only [Reader.startTable, Option.map_map, Function.comp_def]

theorem codeLine_agrees {draft : RegistryDraft} {registry : Registry} (h : draft.Agrees registry)
    (pending : List Text) (line : Text) (rest : List Text) :
    ∃ next, codeLine draft pending line rest = .ok next ∧
      next.Agrees (Reader.codeLine registry pending line rest) := by
  have hclass : (Block.ofLines pending).draft.classDecl =
      (Block.ofLines pending).classDecl.map ClassDecl.draft := rfl
  have htype : (Block.ofLines pending).draft.typeDecl =
      (Block.ofLines pending).typeDecl.map TypeDecl.draft := rfl
  simp only [codeLine, Reader.codeLine, Reader.commitBlock, BlockDraft.ofLines_eq, hclass, htype]
  cases (Block.ofLines pending).classDecl with
  | some decl =>
      obtain ⟨next, hnext, hagrees⟩ := commitClass_agrees h (Block.ofLines pending)
      have henum : decl.draft.isEnum = decl.isEnum := rfl
      simp only [Option.map_some, hnext, ok_bind, henum]
      split
      · exact startTable_agrees hagrees decl.name line
      · exact ⟨_, rfl, hagrees, rfl, rfl⟩
  | none =>
      cases (Block.ofLines pending).typeDecl with
      | some decl =>
          obtain ⟨next, hnext, hagrees⟩ := commitField_agrees h decl line
          simp only [Option.map_none, Option.map_some, hnext, ok_bind]
          exact ⟨_, rfl, hagrees, rfl, rfl⟩
      | none =>
          obtain ⟨next, hnext, hagrees⟩ :=
            commitFunction_agrees h (Block.ofLines pending) line rest
          simp only [Option.map_none, hnext, ok_bind]
          exact ⟨_, rfl, hagrees, rfl, rfl⟩

namespace Agrees

variable {draft : ReaderDraft} {reader : Reader}

theorem tableLine (h : draft.Agrees reader) (name : Text) (table : EnumTable) (line : Text) :
    ∃ next, draft.tableLine (some name) table line = .ok next ∧
      next.Agrees (reader.tableLine name table line) := by
  rw [ReaderDraft.tableLine, EnumTable.checkedStep_eq, ok_bind]
  refine ⟨_, rfl, h.registry.addClassFields name _, h.pending, ?_⟩
  simp only [Reader.tableLine, Option.map_map, Function.comp_def]

theorem plainLine (h : draft.Agrees reader) (line : Text) (rest : List Text) :
    ∃ next, draft.plainLine line rest = .ok next ∧ next.Agrees (reader.plainLine line rest) := by
  obtain ⟨registry, hlocal, hagrees⟩ := recordLocal_agrees h.registry (Text.trim line)
  simp only [ReaderDraft.plainLine, Reader.plainLine, hlocal, ok_bind, h.pending,
    BlockDraft.ofLines_eq]
  split
  · exact ⟨_, rfl, hagrees, rfl, rfl⟩
  · split
    · obtain ⟨next, hnext, hclass⟩ := commitClass_agrees hagrees (Block.ofLines reader.pending)
      rw [hnext, ok_bind]
      exact ⟨_, rfl, hclass, rfl, rfl⟩
    · split
      · exact ⟨_, rfl, hagrees, rfl, rfl⟩
      · exact codeLine_agrees hagrees reader.pending (Text.trim line) rest

/-- **No line makes a check fail**, and the readers agree again behind it. -/
theorem step (h : draft.Agrees reader) (line : Text) (rest : List Text) :
    ∃ next, draft.step line rest = .ok next ∧ next.Agrees (reader.step line rest) := by
  rw [ReaderDraft.step, Reader.step, h.table]
  cases reader.table with
  | none => exact h.plainLine line rest
  | some inside => exact h.tableLine inside.1 inside.2 line

theorem run (h : draft.Agrees reader) (lines : List Text) :
    ∃ last, draft.run lines = .ok last ∧ last.Agrees (reader.run lines) := by
  induction lines generalizing draft reader with
  | nil => exact ⟨draft, rfl, h⟩
  | cons line lines ih =>
      obtain ⟨next, hnext, hagrees⟩ := h.step line lines
      rw [ReaderDraft.run, hnext, ok_bind]
      exact ih hagrees

end Agrees

end ReaderDraft

/-! ## Whole sources -/

/-- Reading a source with checks gives its documentation. -/
theorem exists_checkedParse (code namespaceName : Text) :
    ∃ doc, checkedParse code namespaceName = .ok ⟨[doc]⟩ ∧
      parse code namespaceName = .ok ⟨[doc]⟩ ∧ doc.name = namespaceName := by
  have hstart : ReaderDraft.Agrees {} {} := ⟨⟨rfl, rfl, rfl, rfl⟩, rfl, rfl⟩
  obtain ⟨last, hlast, hagrees⟩ := hstart.run (Text.lines code)
  obtain ⟨functions, -, -, hparse⟩ := exists_parse code namespaceName
  -- the classes of the plain reader are never built, so they have to be clean as they are
  have hnormal : (Reader.run {} (Text.lines code)).IsNormal :=
    Reader.isNormal_run Reader.isNormal_empty _
  have hflat := hagrees.registry.flatten hnormal.registry.classes namespaceName
  refine ⟨_, ?_, hparse, rfl⟩
  rw [checkedParse, hlast, ok_bind, hflat]
  rw [parse] at hparse
  rw [hparse, built_ok]

/-- So does reading the sources of a namespace, which are then merged. -/
theorem exists_checkedSources (name : Text) (sources : List Text) :
    ∃ doc, checkedSources name sources = .ok doc ∧ documentSources name sources = .ok doc ∧
      doc.name = name := by
  have hparse (code : Text) :
      ∃ doc, checkedParse code name = .ok doc ∧ parse code name = .ok doc := by
    obtain ⟨doc, hchecked, hplain, -⟩ := exists_checkedParse code name
    exact ⟨_, hchecked, hplain⟩
  obtain ⟨docs, hchecked, hall⟩ := exists_mapM_eq_ok hparse sources
  have hplain : sources.mapM (parse · name) = .ok docs := (mapM_eq_ok_iff _ _ _).mpr hall
  have hname : (mergeDocs name docs).name = name := by rw [mergeDocs, foldl_merge]
  refine ⟨mergeDocs name docs, ?_, ?_, hname⟩
  · rw [checkedSources, hchecked]
    rfl
  · rw [documentSources, hplain]
    rfl

/-- **No source makes a check fail.** The groups of a line that are used as names and types have
caught something, and every block of comments has the names and types it needs. Every source is
read with checks, and that gives what plain reading gives: documentation of one namespace, of the
name that was asked for. The same holds of several namespaces with several sources each. -/
theorem no_check_fails :
    (∀ line rule groups, lineGroups? line = some (rule, groups) →
        ∀ number ∈ rule.required, (group groups number).isSome) ∧
      (∀ line groups, Declaration.headerGroups? line = some groups → (group groups 3).isSome) ∧
      (∀ lines, (BlockDraft.ofLines lines).Complete) ∧
      (∀ code name, ∃ doc, checkedParse code name = .ok ⟨[doc]⟩ ∧
        parse code name = .ok ⟨[doc]⟩ ∧ doc.name = name) ∧
      ∀ namespaces, ∃ docs, checkedNamespaces namespaces = .ok ⟨docs⟩ ∧
        documentNamespaces namespaces = .ok ⟨docs⟩ ∧
        docs.map NamespaceDoc.name = namespaces.map Prod.fst := by
  refine ⟨fun _ _ _ => isSome_of_lineGroups?, fun _ _ => Declaration.isSome_of_headerGroups?,
    BlockDraft.complete_ofLines, exists_checkedParse, fun namespaces => ?_⟩
  obtain ⟨docs, hchecked, hall⟩ := exists_mapM_eq_ok
    (fun p : Text × List Text => exists_checkedSources p.1 p.2) namespaces
  have hplain : namespaces.mapM (fun p => documentSources p.1 p.2) = .ok docs :=
    (mapM_eq_ok_iff _ _ _).mpr (hall.imp fun _ _ h => h.1)
  have hnames : List.Forall₂ (· = ·) (namespaces.map Prod.fst) (docs.map NamespaceDoc.name) := by
    rw [List.forall₂_map_left_iff, List.forall₂_map_right_iff]
    exact hall.imp fun _ _ h => h.2.symm
  rw [List.forall₂_eq_eq_eq] at hnames
  refine ⟨docs, ?_, ?_, hnames.symm⟩
  · rw [checkedNamespaces, hchecked]
    rfl
  · rw [documentNamespaces, hplain]
    rfl

end LuaReference
