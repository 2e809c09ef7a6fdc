import LuaReference.Proofs.Drafts.Block
import LuaReference.Proofs.Results
import LuaReference.Proofs.Source.WrittenCode
import LuaReference.Source.EnumTable

set_option autoImplicit false

/-! # Enum tables read with checks

Reading a table builds a field for each entry, and it takes the text behind the first brace of a
line. Here both are done by steps that can fail, the field being built from a draft and the text
being asked for only where a brace has been seen, and both turn out never to fail: reading with
checks gives what reading without them gives (`EnumTable.checkedStart_eq`,
`EnumTable.checkedStep_eq`).
-/

namespace LuaReference

/-! ## Checks -/

/-- What can go wrong when a source is read. -/
inductive Mishap where
  /-- A value is built from a draft that lacks a required part. -/
  | draft (error : DraftError)
  /-- A group that is used as a text has caught nothing. -/
  | noText
  /-- The text behind the opening brace is asked of a line that has no brace. -/
  | noBrace
deriving DecidableEq

/-- The value that is built from a draft. -/
def built {α : Type} (result : Except DraftError α) : Except Mishap α := result.mapError .draft

/-- What a group has caught, as a text that has to be there. -/
def caught (groups : Groups) (number : Nat) : Except Mishap Text :=
  match group groups number with
  | none => .error .noText
  | some text => .ok text

/-- The trimmed text behind the first opening brace of a line, which has to have one. -/
def Code.checkedAfterBrace (line : Text) : Except Mishap Text :=
  match Code.afterBrace? line with
  | none => .error .noBrace
  | some body => .ok body

@[simp] theorem built_ok {α : Type} (value : α) : built (.ok value) = .ok value := rfl

namespace EnumTable

/-! ## Reading with checks -/

/-- The group of the entry on a line: its name. -/
def entryGroups? (line : Text) : Option Groups := (entryName? line).map ([some ·])

/-- The draft of an entry with the type comments in front of it. -/
def valueDraft (name : Option Text) (types : List Text) : FieldDraft :=
  match (BlockDraft.ofLines types).typeDecl with
  | none => { name, type := some anyType }
  | some decl => { name, type := decl.type, description := decl.description }

/-- Reads a line of code that begins `depth` braces deep. -/
def checkedCodeLine (depth : Nat) (types : List Text) (line : Text) : Except Mishap Progress := do
  let after := depth + Code.braceBalance line
  match if depth = 0 then entryGroups? line else none with
  | none => return ⟨[], atDepth after types⟩
  | some groups => return ⟨[← built (valueDraft (group groups 1) types).build], atDepth after []⟩

/-- Begins the table behind the first opening brace of a line. -/
def checkedOpening (types : List Text) (line : Text) : Except Mishap Progress := do
  let body ← Code.checkedAfterBrace line
  if body.isEmpty || commentMarker.isPrefixOf body then return ⟨[], some ⟨some 0, types⟩⟩
  else checkedCodeLine 0 types body

/-- Reads one more line. -/
def checkedStep (table : EnumTable) (line : Text) : Except Mishap Progress :=
  let line := Text.trim line
  match table.depth with
  | none =>
      if '\x7b' ∈ line then checkedOpening table.types line
      else return ⟨[], if startsWithClose line then none else some table⟩
  | some depth =>
      if depth = 0 && startsWithClose line then return ⟨[], none⟩
      else if typeMarker.isPrefixOf line then
        let types := if depth = 0 then table.types ++ [line] else table.types
        return ⟨[], some { table with types }⟩
      else if commentMarker.isPrefixOf line || line.isEmpty then return ⟨[], some table⟩
      else checkedCodeLine depth table.types line

/-- Reads the code line behind the comment block of an enum. -/
def checkedStart (line : Text) : Except Mishap Progress :=
  if '\x7b' ∈ line then checkedOpening [] line else return ⟨[], some {}⟩

/-! ## No check fails -/

theorem build_valueDraft (name : Text) (types : List Text) :
    (valueDraft (some name) types).build = .ok (value name types) := by
  rw [valueDraft, value, BlockDraft.ofLines_eq, Block.draft]
  cases (Block.ofLines types).typeDecl <;> rfl

theorem checkedCodeLine_eq (depth : Nat) (types : List Text) (line : Text) :
    checkedCodeLine depth types line = .ok (codeLine depth types line) := by
  have hentry : (if depth = 0 then entryGroups? line else none) =
      (if depth = 0 then entryName? line else none).map ([some ·]) := by
    split <;> rfl
  rw [checkedCodeLine, codeLine, hentry]
  cases if depth = 0 then entryName? line else none with
  | none => rfl
  | some name =>
      have hbuild : built (valueDraft (group [some name] 1) types).build = .ok (value name types) :=
        congrArg built (build_valueDraft name types)
      simp only [Option.map_some, hbuild, ok_bind]
      rfl

/-- **The text behind a brace is asked only of a line that has one**: where a brace has been seen
the table begins, and where none has been seen it does not. -/
theorem checkedOpening_eq (types : List Text) (line : Text) (missing : Progress) :
    (if '\x7b' ∈ line then checkedOpening types line else .ok missing) =
      .ok ((openingLine? types line).getD missing) := by
  by_cases hbrace : '\x7b' ∈ line
  · obtain ⟨body, hbody⟩ := Option.isSome_iff_exists.mp ((Code.isSome_afterBrace? line).mpr hbrace)
    simp only [if_pos hbrace, checkedOpening, openingLine?, Code.checkedAfterBrace, hbody,
      Option.map_some, ok_bind, Option.getD_some]
    split
    · rfl
    · rw [checkedCodeLine_eq]
  · rw [if_neg hbrace, openingLine?, Code.afterBrace?_eq_none_iff.mpr hbrace]
    rfl

/-- The guard is needed: without a brace the table cannot be entered. -/
example : checkedOpening [] "RED = 1".toList = .error .noBrace := rfl

theorem checkedStart_eq (line : Text) : checkedStart line = .ok (start line) :=
  checkedOpening_eq [] line ⟨[], some {}⟩

theorem checkedStep_eq (table : EnumTable) (line : Text) :
    table.checkedStep line = .ok (table.step line) := by
  obtain ⟨depth, types⟩ := table
  cases depth with
  | none =>
      refine (checkedOpening_eq types (Text.trim line) _).trans (congrArg Except.ok ?_)
      simp only [step]
      cases openingLine? types (Text.trim line) <;> rfl
  | some depth =>
      simp only [checkedStep, step, checkedCodeLine_eq]
      split
      · rfl
      · split
        · rfl
        · split <;> rfl

end EnumTable

end LuaReference
