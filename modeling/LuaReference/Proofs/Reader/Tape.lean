import LuaReference.Proofs.Reader.TableScan
import LuaReference.Proofs.Returns.Lookahead

set_option autoImplicit false

/-! # Cursors that remember their moves

A tape is a cursor with the moves it has made, and what each of them was made for. Two scans move
it: one looks ahead for a returned value and goes back, and one reads the table of an enum and stays
behind it. Both read on line by line until they have seen enough (`Tape.readOn`), so both take the
cursor forward by as many lines as they read (`Tape.readOn_eq`), and that never is beyond the last
line.
-/

namespace LuaReference

open Returns

/-- What a cursor is moved for. -/
inductive Purpose where
  /-- The next line is read outside of tables. -/
  | line
  /-- The next line of a table is read. -/
  | tableLine
  /-- A line is looked at that is not to be read yet. -/
  | ahead
  /-- The cursor goes back to where it has looked ahead from. -/
  | back
deriving DecidableEq

/-- Whether a line is read for good. -/
def Purpose.reads : Purpose → Bool
  | .line | .tableLine => true
  | .ahead | .back => false

/-- A move of a cursor from one position to another one. -/
structure Move where
  purpose : Purpose
  source : Nat
  target : Nat
deriving DecidableEq

/-- Whether a move stays in a list of `count` lines. -/
def Move.StaysIn (count : Nat) (move : Move) : Prop := move.source ≤ count ∧ move.target ≤ count

theorem Move.StaysIn.mono {count more : Nat} {move : Move} (h : move.StaysIn count)
    (hle : count ≤ more) : move.StaysIn more := ⟨Nat.le_trans h.1 hle, Nat.le_trans h.2 hle⟩

/-- A cursor with the moves that it has made. -/
structure Tape extends Cursor where
  moves : List Move := []
deriving DecidableEq

namespace Tape

/-! ## Moves -/

/-- Reads the next line. -/
def read? (purpose : Purpose) (tape : Tape) : Option (Text × Tape) :=
  tape.toCursor.read?.map fun (line, next) =>
    (line, ⟨next, tape.moves ++ [⟨purpose, tape.position, next.position⟩]⟩)

/-- Goes back to a position. -/
def goBack (position : Nat) (tape : Tape) : Tape :=
  { tape with position, moves := tape.moves ++ [⟨.back, tape.position, position⟩] }

/-- The moves that read `count` lines from a position on. -/
def forwardMoves (purpose : Purpose) (position count : Nat) : List Move :=
  (List.range' position count).map fun position => ⟨purpose, position, position + 1⟩

/-- The tape behind `count` further lines that have been read one by one. -/
def forward (purpose : Purpose) (count : Nat) (tape : Tape) : Tape :=
  { tape with
    position := tape.position + count
    moves := tape.moves ++ forwardMoves purpose tape.position count }

variable {purpose : Purpose} {tape next : Tape} {line : Text}

theorem map_source_forwardMoves (position count : Nat) :
    (forwardMoves purpose position count).map Move.source = List.range' position count := by
  rw [forwardMoves, List.map_map]
  exact List.map_id _

theorem mem_forwardMoves {position count : Nat} {move : Move}
    (h : move ∈ forwardMoves purpose position count) :
    move.purpose = purpose ∧ move.StaysIn (position + count) := by
  obtain ⟨source, hsource, rfl⟩ := List.mem_map.mp h
  have hrange := List.mem_range'_1.mp hsource
  refine ⟨rfl, ?_, ?_⟩ <;> dsimp only <;> omega

theorem filter_forwardMoves (h : purpose.reads = true) (position count : Nat) :
    (forwardMoves purpose position count).filter (·.purpose.reads) =
      forwardMoves purpose position count := by
  refine List.filter_eq_self.mpr fun move hmove => ?_
  rw [(mem_forwardMoves hmove).1, h]

@[simp] theorem forward_rest (count : Nat) :
    (tape.forward purpose count).rest = tape.rest.drop count := by
  rw [Cursor.rest, Cursor.rest, List.drop_drop]
  rfl

theorem forward_zero : tape.forward purpose 0 = tape := by
  simp [forward, forwardMoves]

theorem forward_forward (first second : Nat) :
    (tape.forward purpose first).forward purpose second =
      tape.forward purpose (first + second) := by
  simp [forward, forwardMoves, ← List.range'_append_1, Nat.add_assoc]

/-- A line is read where the tape is, as long as there is one. -/
theorem read?_eq (purpose : Purpose) (tape : Tape) :
    tape.read? purpose = tape.rest.head?.map (·, tape.forward purpose 1) := by
  rw [read?, Cursor.read?, Cursor.rest, List.head?_drop, Option.map_map]
  rfl

theorem rest_of_read? (h : tape.read? purpose = some (line, next)) :
    tape.rest = line :: next.rest := by
  rw [read?_eq] at h
  obtain ⟨first, hfirst, hpair⟩ := Option.map_eq_some_iff.mp h
  obtain ⟨rfl, rfl⟩ := Prod.mk.inj hpair
  obtain ⟨rest, hrest⟩ := List.head?_eq_some_iff.mp hfirst
  rw [forward_rest, hrest]
  rfl

/-! ## Scans -/

section Scans

variable {State : Type}

/-- Reads on line by line, until a step tells not to go on or no line is left. -/
def readOn (purpose : Purpose) (step : State → Text → State × Bool) (state : State) (tape : Tape) :
    State × Tape :=
  match _hread : tape.read? purpose with
  | none => (state, tape)
  | some (line, next) =>
      let (state, goesOn) := step state line
      if goesOn then readOn purpose step state next else (state, next)
termination_by tape.rest.length
decreasing_by
  rw [rest_of_read? _hread]
  exact Nat.lt_succ_self _

/-- What steps make of some lines and how many of the lines they see. -/
def stepThrough (step : State → Text → State × Bool) (state : State) : List Text → State × Nat
  | [] => (state, 0)
  | line :: rest =>
      let (state, goesOn) := step state line
      if goesOn then
        let (state, count) := stepThrough step state rest
        (state, count + 1)
      else (state, 1)

theorem stepThrough_le (step : State → Text → State × Bool) (state : State) (lines : List Text) :
    (stepThrough step state lines).2 ≤ lines.length := by
  induction lines generalizing state with
  | nil => exact Nat.le_refl 0
  | cons line rest ih =>
      rw [stepThrough]
      dsimp only
      split
      · exact Nat.succ_le_succ (ih _)
      · exact Nat.succ_le_succ (Nat.zero_le _)

/-- **A scan moves the cursor forward** by the lines that it reads, and by nothing else. -/
theorem readOn_eq (step : State → Text → State × Bool) (state : State) (tape : Tape) :
    readOn purpose step state tape =
      ((stepThrough step state tape.rest).1,
        tape.forward purpose (stepThrough step state tape.rest).2) := by
  induction hrest : tape.rest generalizing state tape with
  | nil =>
      rw [readOn]
      split
      · rw [stepThrough, forward_zero]
      · rename_i hread
        rw [rest_of_read? hread] at hrest
        cases hrest
  | cons line rest ih =>
      have hread : tape.read? purpose = some (line, tape.forward purpose 1) := by
        rw [read?_eq, hrest]
        rfl
      have hnext : (tape.forward purpose 1).rest = rest := by
        rw [forward_rest, hrest]
        rfl
      rw [readOn, stepThrough]
      split
      · rename_i hnone
        rw [hread] at hnone
        cases hnone
      · rename_i first next hsome
        rw [hread] at hsome
        obtain ⟨rfl, rfl⟩ := Prod.mk.inj (Option.some.inj hsome)
        simp only
        split
        · rw [ih _ _ hnext, forward_forward, Nat.add_comm]
        · rfl

end Scans

/-! ## Looking ahead -/

/-- Looks at one more line: whether a value has been found, how many functions are open behind the
line, and whether any is. -/
def aheadStep : Bool × Nat → Text → (Bool × Nat) × Bool
  | (found, depth), line =>
      match codeOn? line with
      | none => ((found, depth), true)
      | some code =>
          if "function".toList.isPrefixOf code then ((found || returnsValue code, depth + 1), true)
          else if code = "end".toList then
            if depth = 1 then ((found, 0), false)
            else ((found || returnsValue code, depth - 1), true)
          else ((found || returnsValue code, depth), true)

/-- Whether the function declared on `line`, the line in front of the cursor, gives back a value:
reads on as far as the function goes, and then goes back. -/
def lookAhead (line : Text) (tape : Tape) : Bool × Tape :=
  let ((found, _), reached) := readOn .ahead aheadStep (inDeclaration line, 1) tape
  (found, reached.goBack tape.position)

theorem stepThrough_aheadStep (found : Bool) (depth : Nat) (lines : List Text) :
    (stepThrough aheadStep (found, depth + 1) lines).1.1 = (found || inBody depth lines) := by
  induction lines generalizing found depth with
  | nil => exact (Bool.or_false found).symm
  | cons line rest ih =>
      rw [stepThrough, inBody_cons, aheadStep]
      cases codeOn? line with
      | none => exact ih found depth
      | some code =>
          simp only
          by_cases hfunction : "function".toList.isPrefixOf code = true
          · rw [if_pos hfunction, if_pos hfunction, ← Bool.or_assoc]
            exact ih _ (depth + 1)
          rw [if_neg hfunction, if_neg hfunction]
          by_cases hend : code = "end".toList
          · have hnone : returnsValue "end".toList = false := by decide
            rw [if_pos hend, if_pos hend, hend, hnone, Bool.or_false]
            cases depth with
            | zero => exact (Bool.or_false found).symm
            | succ depth => exact ih found depth
          · rw [if_neg hend, if_neg hend, ← Bool.or_assoc]
            exact ih _ depth

/-- The moves of a look at `count` lines behind a position. -/
def lookMoves (position count : Nat) : List Move :=
  forwardMoves .ahead position count ++ [⟨.back, position + count, position⟩]

theorem mem_lookMoves {position count : Nat} {move : Move} (h : move ∈ lookMoves position count) :
    move.purpose.reads = false ∧ move.StaysIn (position + count) := by
  rcases List.mem_append.mp h with h | h
  · obtain ⟨hpurpose, hstays⟩ := mem_forwardMoves h
    exact ⟨by rw [hpurpose]; rfl, hstays⟩
  · rw [List.mem_singleton.mp h]
    exact ⟨rfl, Nat.le_refl _, Nat.le_add_right _ _⟩

/-- **Looking ahead leaves the cursor where it is**, and it answers the question that the lines
behind the cursor answer. -/
theorem lookAhead_eq (line : Text) (tape : Tape) :
    ∃ count ≤ tape.rest.length, tape.lookAhead line =
      (afterLine line tape.rest,
        { tape with moves := tape.moves ++ lookMoves tape.position count }) := by
  refine ⟨_, stepThrough_le aheadStep (inDeclaration line, 1) tape.rest, ?_⟩
  rw [lookAhead, readOn_eq]
  simp only [stepThrough_aheadStep, afterLine, goBack, forward, lookMoves, List.append_assoc]

/-! ## Reading a table -/

/-- Reads one more line of a table: the values that are known behind the line, the place in the
table, and whether the table goes on. -/
def tableStep : List FieldDoc × EnumTable → Text → (List FieldDoc × EnumTable) × Bool
  | (values, table), line =>
      let progress := table.step line
      match progress.next with
      | none => ((values ++ progress.values, table), false)
      | some next => ((values ++ progress.values, next), true)

/-- Reads the table of an enum that begins on `line`, the line in front of the cursor, or on one of
the lines behind it. -/
def readTable (line : Text) (tape : Tape) : List FieldDoc × Tape :=
  let progress := EnumTable.start line
  match progress.next with
  | none => (progress.values, tape)
  | some table =>
      let ((values, _), behind) := readOn .tableLine tableStep (progress.values, table) tape
      (values, behind)

/-- How many of the lines behind its first one are read of a table. -/
def tableLength (line : Text) (lines : List Text) : Nat :=
  lines.length - (EnumTable.read line lines).2.length

theorem stepThrough_tableStep (values : List FieldDoc) (table : EnumTable) (lines : List Text) :
    (stepThrough tableStep (values, table) lines).1.1 = values ++ (table.readFrom lines).1 ∧
      lines.drop (stepThrough tableStep (values, table) lines).2 = (table.readFrom lines).2 := by
  induction lines generalizing values table with
  | nil => exact ⟨(List.append_nil values).symm, rfl⟩
  | cons line rest ih =>
      cases hnext : (table.step line).next with
      | none => simp [stepThrough, tableStep, EnumTable.readFrom, hnext]
      | some next =>
          obtain ⟨hvalues, hrest⟩ := ih (values ++ (table.step line).values) next
          simp only [stepThrough, tableStep, EnumTable.readFrom, hnext, if_true]
          exact ⟨hvalues.trans (List.append_assoc _ _ _), hrest⟩

/-- What is left behind a table are the last lines. -/
theorem read_suffix (line : Text) (lines : List Text) :
    (EnumTable.read line lines).2 <:+ lines := by
  rw [EnumTable.read]
  cases (EnumTable.start line).next with
  | none => exact List.suffix_rfl
  | some table =>
      simp only
      rw [← (stepThrough_tableStep [] table lines).2]
      exact List.drop_suffix _ _

theorem drop_tableLength (line : Text) (lines : List Text) :
    lines.drop (tableLength line lines) = (EnumTable.read line lines).2 :=
  (List.suffix_iff_eq_drop.mp (read_suffix line lines)).symm

theorem tableLength_le (line : Text) (lines : List Text) :
    tableLength line lines ≤ lines.length := Nat.sub_le _ _

/-- **Reading a table** takes the cursor behind the table. -/
theorem readTable_eq (line : Text) (tape : Tape) :
    tape.readTable line = ((EnumTable.read line tape.rest).1,
      tape.forward .tableLine (tableLength line tape.rest)) := by
  simp only [readTable, tableLength, EnumTable.read]
  cases (EnumTable.start line).next with
  | none => simp [forward_zero]
  | some table =>
      obtain ⟨hvalues, hrest⟩ :=
        stepThrough_tableStep (EnumTable.start line).values table tape.rest
      have hcount := stepThrough_le tableStep ((EnumTable.start line).values, table) tape.rest
      have hlength : tape.rest.length - (table.readFrom tape.rest).2.length =
          (stepThrough tableStep ((EnumTable.start line).values, table) tape.rest).2 := by
        rw [← hrest, List.length_drop]
        omega
      simp only [readOn_eq, hvalues, hlength]

end Tape

end LuaReference
