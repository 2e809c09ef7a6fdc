import LuaReference.Proofs.Reader.Step
import LuaReference.Proofs.Reader.Tape
import LuaReference.Reader.Stages

set_option autoImplicit false

/-! # Every line is read once

A source can also be read by a loop that goes along the lines with one cursor. Each pass of the loop
reads a line and does what the line asks for, with the cursor in hand: it may look ahead, and it may
read the table of an enum to its end (`Tape.processLine`). So the loop ends as soon as no pass moves
the cursor back, and each line is read once if a pass leaves the cursor behind what it has read
(`Tape.processLine_eq`).

The loop is the reading of the source, pass by pass: its passes are the stages of the source, and
what it has read in the end is what is documented (`Tape.readAll_lines`).
-/

namespace LuaReference

namespace Reader

/-! ## Lines with the tables they begin -/

/-- The enum whose table begins on a line, if the line closes the block of an enum. -/
def enum? (reader : Reader) (line : Text) : Option Text :=
  if lineKind line = .code then
    ((Block.ofLines reader.pending).classDecl.filter ClassDecl.isEnum).map ClassDecl.name
  else none

/-- How many of the lines behind a line belong to the table that begins on it. -/
def tableLines (reader : Reader) (line : Text) (rest : List Text) : Nat :=
  match reader.enum? line with
  | none => 0
  | some _ => Tape.tableLength (Text.trim line) rest

theorem tableLines_le (reader : Reader) (line : Text) (rest : List Text) :
    reader.tableLines line rest ≤ rest.length := by
  rw [tableLines]
  split
  · exact Nat.zero_le _
  · exact Tape.tableLength_le _ _

/-- The state behind a line and the table that begins on it. -/
def stepOver (reader : Reader) (line : Text) (rest : List Text) : Reader :=
  match reader.enum? line with
  | none => plainLine reader line rest
  | some name =>
      { registry := (commitClass (recordLocal reader.registry (Text.trim line))
          (Block.ofLines reader.pending)).addClassFields name
            (EnumTable.read (Text.trim line) rest).1 }

theorem plainLine_of_enum {reader : Reader} {line name : Text} (h : reader.enum? line = some name)
    (rest : List Text) :
    plainLine reader line rest =
      startTable (commitClass (recordLocal reader.registry (Text.trim line))
        (Block.ofLines reader.pending)) name (Text.trim line) := by
  rw [enum?, Option.ite_none_right_eq_some] at h
  obtain ⟨hkind, h⟩ := h
  obtain ⟨decl, hdecl, rfl⟩ := Option.map_eq_some_iff.mp h
  rw [Option.filter_eq_some_iff] at hdecl
  rw [plainLine_eq, hkind]
  simp only [codeLine, commitBlock, hdecl.1, hdecl.2, if_true]

/-- Behind a line and the table that begins on it no table is open. -/
theorem table_stepOver {reader : Reader} {line : Text} (rest : List Text) :
    (reader.stepOver line rest).table = none := by
  rw [stepOver]
  cases henum : reader.enum? line with
  | some name => rfl
  | none =>
      simp only [plainLine_eq]
      cases hkind : lineKind line with
      | documentation | blank | comment => rfl
      | code =>
          rw [enum?, if_pos hkind, Option.map_eq_none_iff] at henum
          simp only [codeLine, commitBlock]
          cases hclass : (Block.ofLines reader.pending).classDecl with
          | none => cases (Block.ofLines reader.pending).typeDecl <;> rfl
          | some decl =>
              have hplain : decl.isEnum = false := by simpa [hclass] using henum
              simp only [hplain]
              rfl

/-- The documentation of a source is read table by table. -/
theorem registry_run_cons {reader : Reader} (htable : reader.table = none) (line : Text)
    (rest : List Text) :
    (run reader (line :: rest)).registry =
      (run (reader.stepOver line rest) (rest.drop (reader.tableLines line rest))).registry := by
  rw [run, Reader.step, htable, stepOver, tableLines]
  cases henum : reader.enum? line with
  | none => rfl
  | some name =>
      simp only [plainLine_of_enum henum]
      rw [registry_run_startTable, Tape.drop_tableLength]

end Reader

namespace Tape

open Reader

/-! ## One pass -/

/-- The registry with the function declared on a line of code. Only a function whose returned values
are not documented is looked at. -/
def commitFunction (registry : Registry) (block : Block) (line : Text) (tape : Tape) :
    Registry × Tape :=
  if Declaration.isLocal line then (registry, tape)
  else match Declaration.headerOf? line with
    | none => (registry, tape)
    | some header =>
        if isHiddenOwner registry header.owner then (registry, tape)
        else
          let (returnsValue, tape) :=
            if block.returns.isEmpty then tape.lookAhead line else (false, tape)
          (addFunction registry header.owner (functionDoc block header returnsValue), tape)

/-- Closes the pending block with a trimmed line of code. -/
def codeLine (registry : Registry) (pending : List Text) (line : Text) (tape : Tape) :
    Registry × Tape :=
  let block := Block.ofLines pending
  match block.classDecl, block.typeDecl with
  | some decl, _ =>
      let registry := commitClass registry block
      if decl.isEnum then
        let (values, tape) := tape.readTable line
        (registry.addClassFields decl.name values, tape)
      else (registry, tape)
  | none, some decl => (commitField registry decl line, tape)
  | none, none => commitFunction registry block line tape

/-- Does what a line asks for, the cursor being behind the line. -/
def processLine (reader : Reader) (line : Text) (tape : Tape) : Reader × Tape :=
  let line := Text.trim line
  let registry := recordLocal reader.registry line
  if Tag.isDocComment line then ({ registry, pending := reader.pending ++ [line] }, tape)
  else if line.isEmpty then
    ({ registry := commitClass registry (Block.ofLines reader.pending) }, tape)
  else if commentMarker.isPrefixOf line then ({ registry, pending := reader.pending }, tape)
  else
    let (registry, tape) := codeLine registry reader.pending line tape
    ({ registry }, tape)

/-! ## What a pass does -/

/-- The tape with further moves that lead back to where it is. -/
def record (looks : List Move) (tape : Tape) : Tape := { tape with moves := tape.moves ++ looks }

/-- The moves of looking ahead once, or none. -/
def IsLook (tape : Tape) (looks : List Move) : Prop :=
  looks = [] ∨ ∃ count ≤ tape.rest.length, looks = lookMoves tape.position count

variable {tape : Tape} {line : Text}

@[simp] theorem record_rest (looks : List Move) : (tape.record looks).rest = tape.rest := rfl

theorem record_nil : tape.record [] = tape := by
  rw [record, List.append_nil]

theorem IsLook.staysIn {looks : List Move} (h : IsLook tape looks)
    (hposition : tape.position ≤ tape.lines.length) :
    ∀ move ∈ looks, move.StaysIn tape.lines.length := by
  rcases h with rfl | ⟨count, hcount, rfl⟩
  · simp
  · have hlength : tape.rest.length = tape.lines.length - tape.position := List.length_drop
    exact fun move hmove => (mem_lookMoves hmove).2.mono (by omega)

theorem IsLook.filter_eq_nil {looks : List Move} (h : IsLook tape looks) :
    looks.filter (·.purpose.reads) = [] := by
  rcases h with rfl | ⟨count, -, rfl⟩
  · rfl
  · exact List.filter_eq_nil_iff.mpr fun move hmove => by simp [(mem_lookMoves hmove).1]

/-- What makes no use of the cursor looks at nothing. -/
theorem exists_noLook {α : Type} (result : α) (tape : Tape) :
    ∃ looks, IsLook tape looks ∧ (result, tape) = (result, tape.record looks) :=
  ⟨[], .inl rfl, by rw [record_nil]⟩

theorem commitFunction_eq (registry : Registry) (block : Block) (line : Text) (tape : Tape) :
    ∃ looks, IsLook tape looks ∧ commitFunction registry block line tape =
      (Reader.commitFunction registry block line tape.rest, tape.record looks) := by
  rw [commitFunction, Reader.commitFunction]
  split
  · exact exists_noLook _ tape
  · cases Declaration.headerOf? line with
    | none => exact exists_noLook _ tape
    | some header =>
        simp only
        split
        · exact exists_noLook _ tape
        · cases hreturns : block.returns with
          | nil =>
              obtain ⟨count, hcount, hlook⟩ := lookAhead_eq line tape
              refine ⟨lookMoves tape.position count, .inr ⟨count, hcount, rfl⟩, ?_⟩
              rw [List.isEmpty_nil, if_pos rfl, hlook]
              rfl
          | cons value more =>
              -- the returned values are documented, so nothing is asked for
              simp only [functionDoc, hreturns, List.isEmpty_cons, Bool.false_eq_true, if_false]
              exact exists_noLook _ tape

/-- Only a line of code makes use of the cursor. -/
theorem processLine_eq_ite (reader : Reader) (line : Text) (tape : Tape) :
    processLine reader line tape =
      if lineKind line = .code then
        let (registry, behind) := codeLine (recordLocal reader.registry (Text.trim line))
          reader.pending (Text.trim line) tape
        ({ registry }, behind)
      else (plainLine reader line tape.rest, tape) := by
  rw [plainLine_eq]
  unfold processLine lineKind
  by_cases hdoc : Tag.isDocComment (Text.trim line) = true
  · simp only [hdoc, if_true]
    rfl
  · by_cases hblank : (Text.trim line).isEmpty = true
    · simp only [hdoc, hblank, if_true]
      rfl
    · by_cases hcomment : commentMarker.isPrefixOf (Text.trim line) = true
      · simp only [hdoc, hblank, hcomment, if_true]
        rfl
      · simp only [hdoc, hblank, hcomment]
        rfl

/-- **What a pass does.** The state behind it is the one behind its line and the table that begins
there, and so is the place of the cursor. -/
theorem processLine_eq (reader : Reader) (line : Text) (tape : Tape) :
    ∃ looks, IsLook tape looks ∧ processLine reader line tape =
      (reader.stepOver line tape.rest,
        (tape.forward .tableLine (reader.tableLines line tape.rest)).record looks) := by
  have hno : IsLook tape [] := .inl rfl
  rw [processLine_eq_ite, stepOver, tableLines]
  by_cases hkind : lineKind line = .code
  · rw [if_pos hkind, enum?, if_pos hkind, plainLine_eq, hkind]
    simp only [codeLine, Reader.codeLine, Reader.commitBlock]
    cases hclass : (Block.ofLines reader.pending).classDecl with
    | some decl =>
        refine ⟨[], hno, ?_⟩
        cases henum : decl.isEnum with
        | true => simp [Option.filter, henum, readTable_eq, record_nil]
        | false => simp [Option.filter, henum, forward_zero, record_nil]
    | none =>
        cases htype : (Block.ofLines reader.pending).typeDecl with
        | some decl => exact ⟨[], hno, by simp [forward_zero, record_nil]⟩
        | none =>
            obtain ⟨looks, hlooks, hcommit⟩ :=
              commitFunction_eq (recordLocal reader.registry (Text.trim line))
                (Block.ofLines reader.pending) (Text.trim line) tape
            exact ⟨looks, hlooks, by simp [hcommit, forward_zero]⟩
  · rw [if_neg hkind, enum?, if_neg hkind]
    exact ⟨[], hno, by simp [forward_zero, record_nil]⟩

/-- A pass does not move the cursor back. -/
theorem length_rest_processLine (reader : Reader) (line : Text) (tape : Tape) :
    (processLine reader line tape).2.rest.length ≤ tape.rest.length := by
  obtain ⟨looks, -, hpass⟩ := processLine_eq reader line tape
  rw [hpass, record_rest, forward_rest, List.length_drop]
  exact Nat.sub_le _ _

/-! ## The loop -/

/-- A pass of the loop. -/
structure Pass where
  /-- Where the cursor is in front of the pass. -/
  start : Nat
  line : Text
  before : Reader
  after : Reader
  /-- Where the cursor is behind the pass. -/
  stop : Nat
deriving DecidableEq

/-- What the loop has done in the end. -/
structure Outcome where
  passes : List Pass
  reader : Reader
  tape : Tape
deriving DecidableEq

/-- Reads line by line up to the end. -/
def readAll (reader : Reader) (tape : Tape) : Outcome :=
  match _hread : tape.read? .line with
  | none => ⟨[], reader, tape⟩
  | some (line, next) =>
      let done := processLine reader line next
      let outcome := readAll done.1 done.2
      { outcome with
        passes := ⟨tape.position, line, reader, done.1, done.2.position⟩ :: outcome.passes }
termination_by tape.rest.length
decreasing_by
  rw [rest_of_read? _hread]
  exact Nat.lt_succ_of_le (length_rest_processLine reader line next)

theorem readAll_of_nil (h : tape.rest = []) (reader : Reader) :
    readAll reader tape = ⟨[], reader, tape⟩ := by
  rw [readAll]
  split
  · rfl
  · rename_i hread
    rw [rest_of_read? hread] at h
    cases h

/-- The first pass of the loop, and the loop behind it. -/
theorem exists_readAll_of_cons {rest : List Text} (h : tape.rest = line :: rest) (reader : Reader) :
    ∃ looks, IsLook (tape.forward .line 1) looks ∧
      let after := reader.stepOver line rest
      let count := reader.tableLines line rest
      let outcome := readAll after
        (((tape.forward .line 1).forward .tableLine count).record looks)
      readAll reader tape = { outcome with
        passes := ⟨tape.position, line, reader, after, tape.position + 1 + count⟩ ::
          outcome.passes } := by
  obtain ⟨looks, hlooks, hdone⟩ := processLine_eq reader line (tape.forward .line 1)
  rw [forward_rest, h, List.drop_one, List.tail_cons] at hdone
  refine ⟨looks, hlooks, ?_⟩
  rw [readAll]
  split
  · rename_i hread
    rw [read?_eq, h] at hread
    cases hread
  · rename_i first next hread
    rw [read?_eq, h] at hread
    obtain ⟨rfl, rfl⟩ := Prod.mk.inj (Option.some.inj hread)
    simp only [hdone]
    rfl

/-- The runs of the loop: it ends when no line is left, and each pass is followed by the rest of the
loop. -/
inductive Runs : Reader → Tape → Outcome → Prop where
  | nil {reader : Reader} {tape : Tape} (rest : tape.rest = []) :
      Runs reader tape ⟨[], reader, tape⟩
  | cons {reader : Reader} {tape : Tape} {line : Text} {rest : List Text} {looks : List Move}
      {outcome : Outcome} (split : tape.rest = line :: rest)
      (isLook : IsLook (tape.forward .line 1) looks)
      (behind : Runs (reader.stepOver line rest)
        (((tape.forward .line 1).forward .tableLine (reader.tableLines line rest)).record looks)
        outcome) :
      Runs reader tape { outcome with
        passes := ⟨tape.position, line, reader, reader.stepOver line rest,
          tape.position + 1 + reader.tableLines line rest⟩ :: outcome.passes }

theorem runs_readAll (reader : Reader) (tape : Tape) : Runs reader tape (readAll reader tape) := by
  induction hlength : tape.rest.length using Nat.strong_induction_on generalizing reader tape with
  | _ length ih =>
      cases hrest : tape.rest with
      | nil =>
          rw [readAll_of_nil hrest]
          exact .nil hrest
      | cons line rest =>
          obtain ⟨looks, hlooks, hloop⟩ := exists_readAll_of_cons hrest reader
          rw [hloop]
          refine .cons hrest hlooks (ih _ ?_ _ _ rfl)
          rw [record_rest, forward_rest, forward_rest, ← hlength, hrest, List.length_drop,
            List.drop_one, List.tail_cons, List.length_cons]
          omega

/-! ## Passes one behind the other -/

/-- Passes that go on from a position and a state up to the last line. Each of them is given the
line in front of the cursor, and leaves the cursor one line further, or behind the table that begins
on the line. -/
inductive Consecutive (lines : List Text) : Nat → Reader → List Pass → Prop where
  | nil (reader : Reader) : Consecutive lines lines.length reader []
  | cons {pass : Pass} {passes : List Pass} (line : lines[pass.start]? = some pass.line)
      (after : pass.after = pass.before.stepOver pass.line (lines.drop (pass.start + 1)))
      (stop : pass.stop =
        pass.start + 1 + pass.before.tableLines pass.line (lines.drop (pass.start + 1)))
      (behind : Consecutive lines pass.stop pass.after passes) :
      Consecutive lines pass.start pass.before (pass :: passes)

/-- The moves of a pass that read lines: one for its line, and those that read a table. -/
def Pass.reading (pass : Pass) : List Move :=
  forwardMoves .line pass.start 1 ++
    forwardMoves .tableLine (pass.start + 1) (pass.stop - (pass.start + 1))

namespace Consecutive

variable {lines : List Text} {start : Nat} {reader : Reader} {passes : List Pass}

theorem start_le (h : Consecutive lines start reader passes) : start ≤ lines.length := by
  induction h with
  | nil reader => exact Nat.le_refl _
  | cons line after stop behind ih => omega

theorem length_le (h : Consecutive lines start reader passes) :
    start + passes.length ≤ lines.length := by
  induction h with
  | nil reader => exact Nat.le_refl _
  | cons line after stop behind ih =>
      rw [List.length_cons]
      omega

/-- Together the passes read every line once, and the lines in their order. -/
theorem map_reading (h : Consecutive lines start reader passes) :
    (passes.flatMap Pass.reading).map Move.source =
      List.range' start (lines.length - start) := by
  induction h with
  | nil reader => simp
  | @cons pass passes line after stop behind ih =>
      have hle := behind.start_le
      have hcount : lines.length - pass.start =
          1 + (pass.stop - (pass.start + 1) + (lines.length - pass.stop)) := by omega
      have hstop : pass.start + 1 + (pass.stop - (pass.start + 1)) = pass.stop := by omega
      rw [List.flatMap_cons, List.map_append, ih, Pass.reading, List.map_append,
        map_source_forwardMoves, map_source_forwardMoves, hcount, ← List.range'_append_1,
        ← List.range'_append_1, hstop, List.append_assoc]

end Consecutive

/-! ## The whole loop -/

/-- The line in front of the cursor is the first of those that are left. -/
theorem rest_eq_cons {rest : List Text} (h : tape.rest = line :: rest) :
    tape.lines[tape.position]? = some line ∧ rest = tape.lines.drop (tape.position + 1) := by
  rw [Cursor.rest] at h
  refine ⟨?_, ?_⟩
  · rw [← List.head?_drop, h, List.head?_cons]
  · rw [← List.drop_drop, h, List.drop_one, List.tail_cons]

theorem position_le_of_cons {rest : List Text} (h : tape.rest = line :: rest) (reader : Reader) :
    tape.position + 1 + reader.tableLines line rest ≤ tape.lines.length := by
  have hcount := tableLines_le reader line rest
  have hlength : tape.rest.length = tape.lines.length - tape.position := List.length_drop
  rw [h, List.length_cons] at hlength
  omega

namespace Runs

variable {reader : Reader} {outcome : Outcome}

/-- **The loop ends behind the last line**, with all lines as they were. -/
theorem tape_eq (h : Runs reader tape outcome) (hposition : tape.position ≤ tape.lines.length) :
    outcome.tape.lines = tape.lines ∧ outcome.tape.position = tape.lines.length := by
  induction h with
  | nil hrest => exact ⟨rfl, Nat.le_antisymm hposition (List.drop_eq_nil_iff.mp hrest)⟩
  | cons hsplit _ _ ih => exact ih (position_le_of_cons hsplit _)

/-- **The passes of the loop come one behind the other.** -/
theorem consecutive (h : Runs reader tape outcome) (hposition : tape.position ≤ tape.lines.length) :
    Consecutive tape.lines tape.position reader outcome.passes := by
  induction h with
  | @nil reader tape hrest =>
      rw [Nat.le_antisymm hposition (List.drop_eq_nil_iff.mp hrest)]
      exact .nil reader
  | @cons reader tape line rest looks outcome hsplit _ _ ih =>
      obtain ⟨hline, rfl⟩ := rest_eq_cons hsplit
      exact @Consecutive.cons tape.lines ⟨tape.position, line, reader, _, _⟩ outcome.passes hline
        rfl rfl (ih (position_le_of_cons hsplit reader))

/-- **The moves of the loop** stay among the lines, and those that read lines are made pass by
pass. -/
theorem exists_moves (h : Runs reader tape outcome)
    (hposition : tape.position ≤ tape.lines.length) :
    ∃ moves, outcome.tape.moves = tape.moves ++ moves ∧
      (∀ move ∈ moves, move.StaysIn tape.lines.length) ∧
      moves.filter (·.purpose.reads) = outcome.passes.flatMap Pass.reading := by
  induction h with
  | nil _ => exact ⟨[], (List.append_nil _).symm, by simp, rfl⟩
  | @cons reader tape line rest looks outcome hsplit hlooks _ ih =>
      have hstop := position_le_of_cons hsplit reader
      obtain ⟨moves, hmoves, hstays, hreads⟩ := ih hstop
      refine ⟨forwardMoves .line tape.position 1 ++
        forwardMoves .tableLine (tape.position + 1) (reader.tableLines line rest) ++ looks ++ moves,
        ?_, ?_, ?_⟩
      · simp only [hmoves, record, forward, List.append_assoc]
      · simp only [List.forall_mem_append]
        refine ⟨⟨⟨fun move hmove => ?_, fun move hmove => ?_⟩, hlooks.staysIn ?_⟩, hstays⟩
        · exact (mem_forwardMoves hmove).2.mono (by omega)
        · exact (mem_forwardMoves hmove).2.mono hstop
        · show tape.position + 1 ≤ tape.lines.length
          omega
      · rw [List.filter_append, List.filter_append, List.filter_append, filter_forwardMoves rfl,
          filter_forwardMoves rfl, hlooks.filter_eq_nil, hreads, List.append_nil,
          List.flatMap_cons, Pass.reading, Nat.add_sub_cancel_left]

/-- **The loop is the reading of the source.** -/
theorem registry_eq (h : Runs reader tape outcome) (htable : reader.table = none) :
    outcome.reader.registry = (run reader tape.rest).registry := by
  induction h with
  | nil hrest => rw [hrest, run]
  | @cons reader tape line rest looks outcome hsplit _ _ ih =>
      rw [hsplit, registry_run_cons htable, ih (table_stepOver rest), record_rest, forward_rest,
        forward_rest, hsplit, List.drop_one, List.tail_cons]

end Runs

end Tape

/-! ## Stages -/

namespace Stage

open Reader

/-- The stage without the table that has no end. -/
def close (stage : Stage) : Stage := { stage with reader := { stage.reader with table := none } }

/-- The stages from the next line on. -/
def behind (total : Nat) (reader : Reader) : List Text → List Stage
  | [] => []
  | line :: rest => listFrom total line (reader.step line rest) rest

theorem list_eq (code : Text) :
    list code = behind (Text.lines code).length {} (Text.lines code) := by
  rw [list]
  cases Text.lines code <;> rfl

theorem listFrom_of_none {reader : Reader} (h : reader.table = none) (total : Nat) (opened : Text)
    (lines : List Text) :
    listFrom total opened reader lines =
      ⟨opened, total - lines.length, reader⟩ :: behind total reader lines := by
  cases lines with
  | nil => rfl
  | cons line rest => simp [listFrom, behind, h]

theorem close_of_none {reader : Reader} (h : reader.table = none) (line : Text) (position : Nat) :
    close ⟨line, position, reader⟩ = ⟨line, position, reader⟩ := by
  rw [close, ← h]

/-- The stage of an open table ends behind the table. -/
theorem listFrom_table (total : Nat) (opened : Text) (registry : Registry) (name : Text)
    (values : List FieldDoc) (table : EnumTable) (lines : List Text) :
    (listFrom total opened ⟨registry.addClassFields name values, [], some (name, table)⟩ lines).map
        close =
      (listFrom total opened
        { registry := registry.addClassFields name (values ++ (table.readFrom lines).1) }
        (table.readFrom lines).2).map close := by
  induction lines generalizing values table with
  | nil => simp [listFrom, EnumTable.readFrom, close]
  | cons line rest ih =>
      simp only [listFrom, Reader.step, tableLine, Registry.addClassFields_addClassFields,
        Option.isSome_some, if_true, EnumTable.readFrom]
      cases (table.step line).next with
      | none => rfl
      | some next =>
          simp only [Option.map_some]
          rw [ih, List.append_assoc]

/-- **The next stage** is that of the next line and the table that begins there. -/
theorem behind_cons {reader : Reader} (htable : reader.table = none) (total : Nat) (line : Text)
    (rest : List Text) :
    let left := rest.drop (reader.tableLines line rest)
    (behind total reader (line :: rest)).map close =
      ⟨line, total - left.length, reader.stepOver line rest⟩ ::
        (behind total (reader.stepOver line rest) left).map close := by
  intro left
  have hnext : (behind total reader (line :: rest)).map close =
      (listFrom total line (reader.stepOver line rest) left).map close := by
    rw [behind, Reader.step, htable, stepOver]
    simp only [left, tableLines]
    cases henum : reader.enum? line with
    | none => rfl
    | some name =>
        simp only [plainLine_of_enum henum, Tape.drop_tableLength, startTable, EnumTable.read]
        cases (EnumTable.start (Text.trim line)).next with
        | none => rfl
        | some table => exact listFrom_table total line _ name _ table rest
  rw [hnext, listFrom_of_none (table_stepOver rest), List.map_cons,
    close_of_none (table_stepOver rest)]

end Stage

namespace Tape

open Reader

variable {tape : Tape} {reader : Reader} {outcome : Outcome}

/-- What can be seen of a pass from outside. -/
def Pass.stage (pass : Pass) : Stage := ⟨pass.line, pass.stop, pass.after⟩

/-- **The passes of the loop are the stages of the source.** -/
theorem Runs.stages_eq (h : Runs reader tape outcome) (htable : reader.table = none)
    (hposition : tape.position ≤ tape.lines.length) :
    outcome.passes.map Pass.stage =
      (Stage.behind tape.lines.length reader tape.rest).map Stage.close := by
  induction h with
  | nil hrest => rw [hrest]; rfl
  | @cons reader tape line rest looks outcome hsplit _ _ ih =>
      have hstop := position_le_of_cons hsplit reader
      have hlength : rest.length = tape.lines.length - (tape.position + 1) := by
        rw [(rest_eq_cons hsplit).2, List.length_drop]
      have hnext : tape.lines.length - (rest.drop (reader.tableLines line rest)).length =
          tape.position + 1 + reader.tableLines line rest := by
        have hcount := tableLines_le reader line rest
        rw [List.length_drop, hlength]
        omega
      have hrest := ih (table_stepOver rest) hstop
      rw [record_rest, forward_rest, forward_rest, hsplit, List.drop_one, List.tail_cons] at hrest
      rw [hsplit, Stage.behind_cons htable, List.map_cons, hrest, hnext]
      rfl

/-! ## Whole sources -/

/-- **Every line is read once.** The loop that reads a source with one cursor ends behind the last
line, after at most as many passes as there are lines, and what it has read is the documentation of
the source; its passes are the stages of the source. The cursor never leaves the lines. The passes
come one behind the other, so that each of them leaves the cursor one line further, or behind the
table of an enum if its line closes the block of one. And the moves that read a line outside of
tables or in one, among all that look ahead and go back, read each line once, and the lines in their
order. -/
theorem readAll_lines (code namespaceName : Text) :
    let lines := Text.lines code
    let outcome := readAll {} { lines := lines }
    (outcome.tape.lines = lines ∧ outcome.tape.position = lines.length ∧
        outcome.passes.length ≤ lines.length) ∧
      (∃ doc, parse code namespaceName = .ok doc ∧
        outcome.reader.registry.flatten namespaceName = .ok doc) ∧
      outcome.passes.map Pass.stage = (Stage.list code).map Stage.close ∧
      (∀ move ∈ outcome.tape.moves, move.StaysIn lines.length) ∧
      Consecutive lines 0 {} outcome.passes ∧
      outcome.tape.moves.filter (·.purpose.reads) = outcome.passes.flatMap Pass.reading ∧
      (outcome.tape.moves.filter (·.purpose.reads)).map Move.source = List.range lines.length := by
  intro lines outcome
  have hruns : Runs {} { lines := lines } outcome := runs_readAll {} { lines := lines }
  have hzero : (0 : Nat) ≤ lines.length := Nat.zero_le _
  obtain ⟨hlines, hposition⟩ := hruns.tape_eq hzero
  have hconsecutive := hruns.consecutive hzero
  obtain ⟨moves, hmoves, hstays, hreads⟩ := hruns.exists_moves hzero
  have hlog : outcome.tape.moves = moves := hmoves
  obtain ⟨functions, -, -, hparse⟩ := exists_parse code namespaceName
  refine ⟨⟨hlines, hposition, ?_⟩, ⟨_, hparse, ?_⟩, ?_, hlog ▸ hstays, hconsecutive,
    hlog ▸ hreads, ?_⟩
  · have hlength : 0 + outcome.passes.length ≤ lines.length := hconsecutive.length_le
    omega
  · rw [hruns.registry_eq rfl, ← hparse]
    rfl
  · rw [hruns.stages_eq rfl hzero, Stage.list_eq]
    rfl
  · rw [hlog, hreads, hconsecutive.map_reading, List.range_eq_range']
    rfl

/-- The line behind the enum is read as a part of its table, and the one behind the header is looked
at before it is read. -/
example :
    (readAll {} { lines := ["---@enum E".toList, "E = \x7b".toList, "A = 1 \x7d".toList,
        "function f()".toList, "end".toList] }).tape.moves =
      [⟨.line, 0, 1⟩, ⟨.line, 1, 2⟩, ⟨.tableLine, 2, 3⟩, ⟨.line, 3, 4⟩, ⟨.ahead, 4, 5⟩,
        ⟨.back, 5, 4⟩, ⟨.line, 4, 5⟩] := by
  decide +kernel

end Tape

end LuaReference
