import LuaReference.Proofs.Registry.Change
import LuaReference.Proofs.Source.TableLines
import LuaReference.Reader.Basic

set_option autoImplicit false

/-! # The scan of an enum table

The scan of a table goes on from line to line until one ends the table. So the lines are split into
those that are read and those that are left, in the only way in which no line but the last one that
is read ends the table (`SplitsAtEnd.unique`).

What is read is known from the lines alone (`read_eq_values`): by induction on the lines that are
left, with those in front of them in hand. In a source the values go to the class of the enum, and
the lines that are left are read as any others (`registry_run_startTable`).
-/

namespace LuaReference

namespace EnumTable

/-! ## Where a table ends -/

/-- Whether the table goes on behind some lines: none of them ends it. -/
def GoesOn (lines : List Text) : Prop :=
  ∀ before line behind, lines = before ++ line :: behind → ¬ Ends before line

/-- The lines that are read of a table and those that are left: the first line that ends the table
is the last one that is read, and without such a line none is left. -/
inductive SplitsAtEnd : List Text → List Text → Prop
  | all {taken : List Text} (goes_on : GoesOn taken) : SplitsAtEnd taken []
  | ended {before : List Text} {line : Text} (goes_on : GoesOn before) (ends : Ends before line)
      (rest : List Text) : SplitsAtEnd (before ++ [line]) rest

theorem goesOn_concat {before : List Text} {line : Text} :
    GoesOn (before ++ [line]) ↔ GoesOn before ∧ ¬ Ends before line := by
  constructor
  · intro h
    refine ⟨fun front other behind hfront => h front other (behind ++ [line]) ?_,
      h before line [] rfl⟩
    rw [hfront, List.append_assoc, List.cons_append]
  · rintro ⟨hbefore, hline⟩ front other behind hsplit
    cases behind using List.reverseRecOn with
    | nil =>
        obtain ⟨rfl, hother⟩ := List.append_inj' hsplit rfl
        obtain rfl := List.singleton_inj.mp hother
        exact hline
    | append_singleton behind last =>
        rw [← List.cons_append, ← List.append_assoc] at hsplit
        exact hbefore front other behind (List.append_inj' hsplit rfl).1

theorem GoesOn.depthBehind_nonneg {lines : List Text} (h : GoesOn lines) :
    0 ≤ depthBehind lines := by
  cases lines using List.reverseRecOn with
  | nil => decide
  | append_singleton before line =>
      have hends := (goesOn_concat.mp h).2
      exact Int.not_lt.mp fun hneg => hends (.inr (.inr hneg))

/-- Of the lines that are read none in front of the last one ends the table. -/
theorem SplitsAtEnd.goesOn_dropLast {taken rest : List Text} (h : SplitsAtEnd taken rest) :
    GoesOn taken.dropLast := by
  cases h with
  | all hgoes =>
      rcases List.eq_nil_or_concat' taken with rfl | ⟨before, line, rfl⟩
      · exact hgoes
      · rw [List.dropLast_concat]
        exact (goesOn_concat.mp hgoes).1
  | ended hgoes hends _ => rwa [List.dropLast_concat]

/-- Two splits of the same lines where the table ends are not one behind the other. -/
theorem SplitsAtEnd.eq_nil_of_append {taken more rest : List Text}
    (h : SplitsAtEnd taken (more ++ rest)) (h' : SplitsAtEnd (taken ++ more) rest) : more = [] := by
  by_contra hmore
  have hgoes := h'.goesOn_dropLast
  rw [List.dropLast_append_of_ne_nil hmore] at hgoes
  generalize hleft : more ++ rest = left at h
  cases h with
  | all _ => exact hmore (List.append_eq_nil_iff.mp hleft).1
  | @ended before line _ hends _ =>
      refine hgoes before line more.dropLast ?_ hends
      rw [List.append_assoc, List.singleton_append]

/-- The lines that are read of a table are the only ones that end where it does. -/
theorem SplitsAtEnd.unique {taken rest taken' rest' : List Text} (h : SplitsAtEnd taken rest)
    (h' : SplitsAtEnd taken' rest') (hlines : taken ++ rest = taken' ++ rest') :
    taken = taken' ∧ rest = rest' := by
  -- one of the two goes on behind the other
  rcases List.append_eq_append_iff.mp hlines with ⟨more, rfl, rfl⟩ | ⟨more, rfl, rfl⟩
  · obtain rfl := h.eq_nil_of_append h'
    exact ⟨(List.append_nil taken).symm, rfl⟩
  · obtain rfl := h'.eq_nil_of_append h
    exact ⟨List.append_nil taken', rfl⟩

/-! ## Reading a whole table -/

/-- The rest of a table is read as described, by induction on the lines that are left: none of the
lines `before` has ended the table. -/
theorem readFrom_eq {before : List Text} (hb : before ≠ []) (hgoes : GoesOn before)
    (lines : List Text) : ∃ more : List Text,
      lines = more ++ (readFrom (placeBehind before) lines).2 ∧
      SplitsAtEnd (before ++ more) (readFrom (placeBehind before) lines).2 ∧
      values (before ++ more) = values before ++ (readFrom (placeBehind before) lines).1 := by
  induction lines generalizing before with
  | nil =>
      refine ⟨[], rfl, ?_, ?_⟩
      · rw [List.append_nil]
        exact .all hgoes
      · rw [List.append_nil]
        exact (List.append_nil _).symm
  | cons line rest ih =>
      have hstep : step (placeBehind before) line = progress before line :=
        step_eq hb hgoes.depthBehind_nonneg
      by_cases hends : Ends before line
      · -- the scan stops behind the line, and what is left was never looked at
        have hread : readFrom (placeBehind before) (line :: rest) =
            ((value? before line).toList, rest) := by
          simp only [readFrom, hstep, progress, if_pos hends]
        rw [hread]
        exact ⟨[line], rfl, .ended hgoes hends rest, values_concat before line⟩
      · -- the line joins those in front of the rest, none of which has ended the table
        have hread : readFrom (placeBehind before) (line :: rest) =
            ((value? before line).toList ++ (readFrom (placeBehind (before ++ [line])) rest).1,
              (readFrom (placeBehind (before ++ [line])) rest).2) := by
          simp only [readFrom, hstep, progress, if_neg hends]
        have hnext : GoesOn (before ++ [line]) := goesOn_concat.mpr ⟨hgoes, hends⟩
        obtain ⟨more, hlines, hsplit, hvalues⟩ := ih (by simp) hnext
        rw [hread]
        rw [values_concat, List.append_assoc] at hvalues
        rw [List.append_assoc] at hsplit hvalues
        exact ⟨line :: more, congrArg (line :: ·) hlines, hsplit, hvalues⟩

/-- A whole table is read as described. -/
theorem read_splitsAtEnd (first : Text) (lines : List Text) : ∃ taken : List Text,
    first :: lines = taken ++ (read first lines).2 ∧ SplitsAtEnd taken (read first lines).2 ∧
      values taken = (read first lines).1 := by
  have hnone : GoesOn [] := fun before line behind h => by simp at h
  by_cases hends : Ends [] first
  · have hread : read first lines = ((value? [] first).toList, lines) := by
      simp only [read, start_eq, progress, if_pos hends]
    rw [hread]
    exact ⟨[first], rfl, .ended hnone hends lines, values_concat [] first⟩
  · have hread : read first lines =
        ((value? [] first).toList ++ (readFrom (placeBehind [first]) lines).1,
          (readFrom (placeBehind [first]) lines).2) := by
      simp only [read, start_eq, progress, if_neg hends, List.nil_append]
    have hgoes : GoesOn [first] := goesOn_concat.mpr ⟨hnone, hends⟩
    obtain ⟨more, hlines, hsplit, hvalues⟩ := readFrom_eq (by simp) hgoes lines
    rw [hread]
    exact ⟨first :: more, congrArg (first :: ·) hlines, hsplit,
      hvalues.trans (congrArg (· ++ _) (values_concat [] first))⟩

end EnumTable

namespace Reader

open EnumTable

/-! ## The table of an enum in a source -/

/-- Reading on in a table adds the values of the rest of the table to the class of the enum, and
goes on behind the table. -/
theorem registry_run_table (registry : Registry) (name : Text) (values : List FieldDoc)
    (table : EnumTable) (lines : List Text) :
    (run ⟨registry.addClassFields name values, [], some (name, table)⟩ lines).registry =
      (run { registry := registry.addClassFields name (values ++ (readFrom table lines).1) }
        (readFrom table lines).2).registry := by
  induction lines generalizing values table with
  | nil => simp [readFrom, run]
  | cons line rest ih =>
      rw [run, Reader.step]
      simp only [tableLine, Registry.addClassFields_addClassFields, readFrom]
      cases (table.step line).next with
      | none => rfl
      | some next =>
          simp only [Option.map_some]
          rw [ih, List.append_assoc]

/-- The table of an enum adds its values to the class of the enum, and the lines behind it are read
as any others. -/
theorem registry_run_startTable (registry : Registry) (name first : Text) (lines : List Text) :
    (run (startTable registry name first) lines).registry =
      (run { registry := registry.addClassFields name (read first lines).1 }
        (read first lines).2).registry := by
  rw [startTable, EnumTable.read]
  cases (start first).next with
  | none => rfl
  | some table => exact registry_run_table registry name _ table lines

end Reader

namespace EnumTable

/-- **The table of an enum is read as its lines say.** Of the lines from the first one on, those up
to the one that ends the table are read and no others. Each entry that they name gives one value
with the type comments that wait for it, in order. These are the fields that the class of the enum
gets, and the source is read on behind the table. -/
theorem read_eq_values (first : Text) (lines : List Text) : ∃ taken rest : List Text,
    (first :: lines = taken ++ rest ∧ SplitsAtEnd taken rest) ∧
    (∀ taken' rest' : List Text, first :: lines = taken' ++ rest' → SplitsAtEnd taken' rest' →
      taken' = taken ∧ rest' = rest) ∧
    read first lines = (values taken, rest) ∧
    (∀ before line, (named? before line).isSome = true ↔
      ¬ Closes before line ∧ depthBehind before = 0 ∧
        ∃ text ∈ bodyLine? before line, ¬ commentMarker <+: text ∧ HasEntry text) ∧
    ∀ (registry : Registry) (name : Text),
      (Reader.run (Reader.startTable registry name first) lines).registry =
        (Reader.run { registry := registry.addClassFields name (values taken) } rest).registry := by
  obtain ⟨taken, hlines, hsplit, hvalues⟩ := read_splitsAtEnd first lines
  refine ⟨taken, (read first lines).2, ⟨hlines, hsplit⟩, ?_, ?_, isSome_named?_iff, ?_⟩
  · intro taken' rest' hlines' hsplit'
    exact hsplit'.unique hsplit (hlines'.symm.trans hlines)
  · rw [hvalues]
  · intro registry name
    rw [hvalues]
    exact Reader.registry_run_startTable registry name first lines

/-- The first entry stands on the first line, and the second closes the table behind its own. -/
example :
    let type := "---@type number".toList
    let taken := ["E = \x7b A = 1,".toList, type, "B = \x7b".toList, "C = 2 \x7d \x7d".toList]
    values taken =
        [⟨"A".toList, anyType, false, none⟩, ⟨"B".toList, "number".toList, false, none⟩] ∧
      read "E = \x7b A = 1,".toList (taken.tail ++ [type]) = (values taken, [type]) := by
  decide +kernel

end EnumTable

end LuaReference
