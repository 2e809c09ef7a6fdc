import LuaReference.Doc.Draft
import LuaReference.Proofs.Drafts.Rule
import LuaReference.Tag.Block

set_option autoImplicit false

/-! # Comment blocks of drafts

A tag has all the parts that its rule asks for, so a block of comments cannot say less than it
needs to. Here the same comments are read without relying on that: of a tag only the groups of its
rule are known, any of which may have caught nothing, and a block collects drafts. That none of them
lacks a required part is then something to be shown (`BlockDraft.complete_ofLines`); it follows from
the agreement of the two readings (`BlockDraft.ofLines_eq`).
-/

namespace LuaReference

/-! ## Blocks -/

/-- The class or enum that a block declares, perhaps without its name. -/
structure ClassDeclDraft where
  name : Option Text
  parent : Option Text
  isEnum : Bool
deriving DecidableEq

/-- What a comment block says, any part of which may lack its name or type. -/
structure BlockDraft where
  description : Option Text := none
  classDecl : Option ClassDeclDraft := none
  typeDecl : Option FieldDraft := none
  fields : List FieldDraft := []
  params : List ParamDraft := []
  returns : List ReturnDraft := []
  nonStatic : Bool := false
deriving DecidableEq

/-- The field with its description continued on a further line. -/
def FieldDraft.addLine (draft : FieldDraft) (line : Text) : FieldDraft :=
  { draft with description := some (continueDescription draft.description line) }

/-- The parameter with its description continued on a further line. -/
def ParamDraft.addLine (draft : ParamDraft) (line : Text) : ParamDraft :=
  { draft with description := some (continueDescription draft.description line) }

namespace BlockDraft

open Block (Target mapLast)

/-- The block with a line added to its general description. -/
def appendGeneral (block : BlockDraft) (line : Text) : BlockDraft :=
  { block with description := some (continueDescription block.description line) }

/-- The block with a line of plain text added where it belongs. -/
def append (block : BlockDraft) (target : Target) (line : Text) : BlockDraft :=
  match target with
  | .field => { block with fields := mapLast (·.addLine line) block.fields }
  | .param => { block with params := mapLast (·.addLine line) block.params }
  | .general => block.appendGeneral line

/-- The block with a tag added, of which the groups are known, and what plain text behind it
continues. -/
def addGroups (block : BlockDraft) : Rule × Groups → BlockDraft × Target
  | (.declaration isEnum, groups) =>
      let block := { block with classDecl := some ⟨group groups 1, group groups 2, isEnum⟩ }
      match Text.trim ((group groups 3).getD []) with
      | [] => (block, .general)
      | text => (block.appendGeneral text, .general)
  | (.field, groups) =>
      let field : FieldDraft :=
        { name := group groups 2, type := group groups 3, isStatic := false,
          description := (group groups 4).filter (!·.isEmpty) }
      ({ block with fields := block.fields ++ [field] }, .field)
  | (.type, groups) =>
      let decl : FieldDraft := { type := group groups 1, description := group groups 2 }
      ({ block with typeDecl := some decl }, .general)
  | (.param, groups) =>
      let param : ParamDraft := ⟨group groups 1, group groups 2, group groups 3⟩
      ({ block with params := block.params ++ [param] }, .param)
  | (.result, groups) =>
      let value : ReturnDraft := ⟨group groups 1, group groups 2, group groups 3⟩
      ({ block with returns := block.returns ++ [value] }, .general)
  | (.nonStatic, _) => ({ block with nonStatic := true }, .general)
  | (.other, _) => (block, .general)

/-- The block and its open target after one more comment line. -/
def addLine (state : BlockDraft × Target) (line : Text) : BlockDraft × Target :=
  match lineGroups? line with
  | some caught => state.1.addGroups caught
  | none =>
      match Tag.commentText line with
      | [] => (state.1, .general)
      | text => (state.1.append state.2 text, state.2)

/-- What a run of trimmed comment lines says. -/
def ofLines (lines : List Text) : BlockDraft := (lines.foldl addLine ({}, .general)).1

end BlockDraft

/-! ## What lacks nothing, as a draft -/

/-- The draft of a field. -/
def FieldDoc.draft (field : FieldDoc) : FieldDraft :=
  ⟨some field.name, some field.type, field.isStatic, field.description⟩

/-- The draft of what is said about a parameter. -/
def ParamEntry.draft (entry : ParamEntry) : ParamDraft :=
  ⟨some entry.name, some entry.type, entry.description⟩

/-- The draft of what is said about a returned value. -/
def ReturnEntry.draft (entry : ReturnEntry) : ReturnDraft :=
  ⟨some entry.type, entry.name, entry.description⟩

/-- The draft of a declared class or enum. -/
def ClassDecl.draft (decl : ClassDecl) : ClassDeclDraft :=
  ⟨some decl.name, decl.parent, decl.isEnum⟩

/-- The draft of a field that a declared type is meant for, still without a name. -/
def TypeDecl.draft (decl : TypeDecl) : FieldDraft :=
  { type := some decl.type, description := decl.description }

/-- The draft of a block. -/
def Block.draft (block : Block) : BlockDraft where
  description := block.description
  classDecl := block.classDecl.map ClassDecl.draft
  typeDecl := block.typeDecl.map TypeDecl.draft
  fields := block.fields.map FieldDoc.draft
  params := block.params.map ParamEntry.draft
  returns := block.returns.map ReturnEntry.draft
  nonStatic := block.nonStatic

@[simp] theorem FieldDoc.build_draft (field : FieldDoc) :
    field.draft.build = .ok field.finish := rfl

@[simp] theorem ParamEntry.build_draft (entry : ParamEntry) :
    entry.draft.build = .ok entry.finish := rfl

@[simp] theorem ReturnEntry.build_draft (entry : ReturnEntry) :
    entry.draft.build = .ok entry.finish := rfl

/-! ## Both readings of a block agree -/

namespace BlockDraft

open Block (Target mapLast)

theorem mapLast_map {α β : Type} (change : α → α) (change' : β → β) {draft : α → β}
    (h : ∀ x, change' (draft x) = draft (change x)) (xs : List α) :
    mapLast change' (xs.map draft) = (mapLast change xs).map draft := by
  induction xs with
  | nil => rfl
  | cons x xs ih =>
      cases xs with
      | nil => simp [mapLast, h]
      | cons next more => simpa [mapLast] using ih

theorem append_draft (block : Block) (target : Target) (line : Text) :
    block.draft.append target line = (block.append target line).draft := by
  cases target with
  | field =>
      simp only [append, Block.append, Block.draft]
      rw [mapLast_map (FieldDoc.addLine · line) (FieldDraft.addLine · line) fun _ => rfl]
  | param =>
      simp only [append, Block.append, Block.draft]
      rw [mapLast_map (ParamEntry.addLine · line) (ParamDraft.addLine · line) fun _ => rfl]
  | general => rfl

/-- Adding a tag by its groups gives the draft of the block with the tag. -/
theorem addGroups_draft (block : Block) (tag : Tag) :
    block.draft.addGroups tag.groups = ((block.addTag tag).1.draft, (block.addTag tag).2) := by
  cases tag with
  | declaration isEnum name parent text =>
      simp only [Tag.groups, addGroups, Block.addTag, group, Option.getD_some,
        List.getElem?_cons_succ, List.getElem?_cons_zero, Option.join_some]
      cases Text.trim text with
      | nil => rfl
      | cons c rest => rfl
  | field visibility name type text =>
      cases text <;> simp [Tag.groups, addGroups, Block.addTag, group, Block.draft, FieldDoc.draft]
  | type type description => rfl
  | param name type description =>
      simp [Tag.groups, addGroups, Block.addTag, group, Block.draft, ParamEntry.draft]
  | result type name description =>
      simp [Tag.groups, addGroups, Block.addTag, group, Block.draft, ReturnEntry.draft]
  | nonStatic => rfl
  | other => rfl

theorem addLine_draft (state : Block × Target) (line : Text) :
    addLine (state.1.draft, state.2) line =
      ((Block.addLine state line).1.draft, (Block.addLine state line).2) := by
  rw [addLine, Block.addLine, lineGroups?_eq]
  cases Tag.ofLine? line with
  | some tag => exact addGroups_draft state.1 tag
  | none =>
      simp only [Option.map_none]
      cases Tag.commentText line with
      | nil => rfl
      | cons c rest => simp only [append_draft]

/-- **Reading a block by groups gives the draft of the block.** -/
theorem ofLines_eq (lines : List Text) : ofLines lines = (Block.ofLines lines).draft := by
  have hstate (state : Block × Target) : lines.foldl addLine (state.1.draft, state.2) =
      ((lines.foldl Block.addLine state).1.draft, (lines.foldl Block.addLine state).2) := by
    induction lines generalizing state with
    | nil => rfl
    | cons line lines ih => rw [List.foldl_cons, addLine_draft, ih, List.foldl_cons]
  exact congrArg Prod.fst (hstate ({}, .general))

/-! ## Nothing is missing -/

/-- A block of which no part lacks what it must have. The name that a declared type is meant for
stands in the code behind the block. -/
structure Complete (block : BlockDraft) : Prop where
  classDecl : ∀ decl ∈ block.classDecl, decl.name.isSome
  typeDecl : ∀ decl ∈ block.typeDecl, decl.type.isSome
  fields : ∀ field ∈ block.fields, ∃ doc, field.build = .ok doc
  params : ∀ param ∈ block.params, ∃ doc, param.build = .ok doc
  returns : ∀ value ∈ block.returns, ∃ doc, value.build = .ok doc

/-- **Whatever the comments are, their block is complete.** -/
theorem complete_ofLines (lines : List Text) : (ofLines lines).Complete := by
  rw [ofLines_eq]
  constructor
  · intro decl hdecl
    obtain ⟨decl, -, rfl⟩ := Option.map_eq_some_iff.mp hdecl
    rfl
  · intro decl hdecl
    obtain ⟨decl, -, rfl⟩ := Option.map_eq_some_iff.mp hdecl
    rfl
  · exact List.forall_mem_map.mpr fun field _ => ⟨_, field.build_draft⟩
  · exact List.forall_mem_map.mpr fun entry _ => ⟨_, entry.build_draft⟩
  · exact List.forall_mem_map.mpr fun entry _ => ⟨_, entry.build_draft⟩

end BlockDraft

end LuaReference
