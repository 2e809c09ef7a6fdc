import LuaReference.Proofs.Registry.Change
import LuaReference.Proofs.Source.EnumBody
import LuaReference.Reader.Basic

set_option autoImplicit false

/-! # Round trip of an enum table

The table of a written enum adds one field for each of its entries to the class of the enum, and
reading goes on behind the line that closes the table (`read_enumBody`).

The reader of sources adds the values of a table line by line, so the values of a run pile up in
the class (`run_table`). They are the values of `EnumTable.Runs`, which are known from the way
the table is written.
-/

namespace LuaReference

namespace Reader

/-- The values of a run through a table are added behind those that are there already. -/
theorem run_table {table last : EnumTable} {lines : List Text} {values : List FieldDoc}
    (h : EnumTable.Runs table lines values last) (registry : Registry) (name : Text)
    (before : List FieldDoc) (rest : List Text) :
    run { registry := registry.addClassFields name before, table := some (name, table) }
        (lines ++ rest) =
      run { registry := registry.addClassFields name (before ++ values)
            table := some (name, last) } rest := by
  induction h generalizing before with
  | nil => rw [List.nil_append, List.append_nil]
  | @cons table next last line lines values more head _ ih =>
      have hstep : step { registry := registry.addClassFields name before
                          table := some (name, table) } line (lines ++ rest) =
          { registry := registry.addClassFields name (before ++ values)
            table := some (name, next) } := by
        simp only [step, tableLine, head, Option.map_some,
          Registry.addClassFields_addClassFields]
      rw [List.cons_append, run, hstep, ih, List.append_assoc]

end Reader

/-- **A written enum table is read back.** It has one field for each entry, in their order, and
what stands behind its closing line is left; the reader of a source adds these fields to the
class of the enum and goes on there. -/
theorem read_enumBody {body : EnumBody} (h : body.IsWritten) {lines : List Text}
    (hl : lines.map Text.trim = body.lines) {close : Text}
    (hc : (Text.trim close).head? = some '\x7d') (rest : List Text) :
    EnumTable.read body.opening.first (lines ++ close :: rest) = (body.fields, rest) ∧
      ∀ (registry : Registry) (name : Text),
        Reader.run (Reader.startTable registry name body.opening.first) (lines ++ close :: rest) =
          Reader.run { registry := registry.addClassFields name body.fields } rest := by
  refine ⟨EnumBody.read_lines h hl hc rest, fun registry name => ?_⟩
  obtain ⟨table, hstart, hruns⟩ := EnumBody.runs_lines h hl
  have hopen : Reader.startTable registry name body.opening.first =
      { registry := registry.addClassFields name [], table := some (name, table) } := by
    rw [Reader.startTable, hstart]
    rfl
  have hclose : Reader.step { registry := registry.addClassFields name body.fields
                              table := some (name, EnumTable.between) } close rest =
      { registry := registry.addClassFields name body.fields } := by
    simp only [Reader.step, Reader.tableLine, EnumTable.step_close hc, Option.map_none,
      Registry.addClassFields_addClassFields, List.append_nil]
  calc Reader.run (Reader.startTable registry name body.opening.first) (lines ++ close :: rest)
      = Reader.run { registry := registry.addClassFields name body.fields
                     table := some (name, EnumTable.between) } (close :: rest) := by
        rw [hopen, Reader.run_table hruns, List.nil_append]
    _ = Reader.run { registry := registry.addClassFields name body.fields } rest := by
        rw [Reader.run, hclose]

/-- An entry with a type comment, and with a comment mark and a brace in its literal. -/
def redEntry : EnumEntry where
  type := some ⟨"number[]".toList, some "the first one".toList⟩
  name := "RED".toList
  blanks := [' ']
  value :=
    ⟨[.char ' ', .literal '"' "--\x7b".toList, .char ',', .char ' '], some " not \x7d".toList⟩

/-- An entry that goes on over two more lines. -/
def blueEntry : EnumEntry where
  name := "BLUE".toList
  blanks := []
  value := .plain " \x7b".toList none
  more := [.plain "0, 0, 255, ".toList (some " its parts".toList), .plain "\x7d,".toList none]

/-- A table with two entries. -/
def colorBody : EnumBody where
  opening := .sameLine "local Color = ".toList
  items := [.comment "- the colors".toList, .entry redEntry, .blank, .entry blueEntry]

theorem redEntry_isWritten : redEntry.IsWritten where
  type := by
    intro decl hd
    obtain rfl := Option.some.inj hd
    refine ⟨.plain (.one (.atom (.run (by decide) (by decide)))), fun text ht => ?_⟩
    obtain rfl := Option.some.inj ht
    exact ⟨⟨by decide, by decide, by decide⟩, by decide⟩
  name := ⟨by decide, by decide⟩
  blanks := by decide
  value := by
    refine ⟨fun piece hp => ?_, by decide +kernel⟩
    simp only [redEntry, List.mem_cons, List.not_mem_nil, or_false] at hp
    rcases hp with rfl | rfl | rfl | rfl
    · exact show ' ' ≠ '\'' ∧ ' ' ≠ '"' by decide
    · exact ⟨.inr rfl, .char (by decide) (.char (by decide) (.char (by decide) .nil))⟩
    · exact show ',' ≠ '\'' ∧ ',' ≠ '"' by decide
    · exact show ' ' ≠ '\'' ∧ ' ' ≠ '"' by decide
  more := by simp [redEntry]
  closes := by decide +kernel

theorem blueEntry_isWritten : blueEntry.IsWritten where
  type := by simp [blueEntry]
  name := ⟨by decide, by decide⟩
  blanks := by decide
  value := CodeLine.isWritten_plain (by decide) (by decide +kernel) none
  more := by
    intro line hl
    rcases List.mem_pair.mp hl with rfl | rfl
    · exact CodeLine.isWritten_plain (by decide) (by decide +kernel) _
    · exact CodeLine.isWritten_plain (by decide) (by decide +kernel) _
  closes := by decide +kernel

theorem colorBody_isWritten : colorBody.IsWritten where
  opening := show '\x7b' ∉ "local Color = ".toList by decide
  items := by
    intro item hi
    simp only [colorBody, List.mem_cons, List.not_mem_nil, or_false] at hi
    rcases hi with rfl | rfl | rfl | rfl
    · exact show ¬ EnumTable.typeMarker <+: "--- the colors".toList by decide
    · exact redEntry_isWritten
    · trivial
    · exact blueEntry_isWritten

/-- The lines of the table as they stand in a source. -/
def colorLines : List Text :=
  ["  --- the colors".toList, "  ---@type number[] the first one".toList,
    "  RED = \"--\x7b\", -- not \x7d".toList, [], "  BLUE= \x7b".toList,
    "    0, 0, 255, -- its parts".toList, "  \x7d,".toList]

theorem read_colorBody :
    colorBody.IsWritten ∧ colorLines.map Text.trim = colorBody.lines ∧
      (Text.trim "\x7d".toList).head? = some '\x7d' ∧
      EnumTable.read "local Color = \x7b".toList
          (colorLines ++ ["\x7d".toList, "print()".toList]) =
        ([⟨"RED".toList, "number[]".toList, false, some "the first one".toList⟩,
          ⟨"BLUE".toList, "any".toList, false, none⟩], ["print()".toList]) :=
  have hlines : colorLines.map Text.trim = colorBody.lines := by decide +kernel
  have hclose : (Text.trim "\x7d".toList).head? = some '\x7d' := by decide +kernel
  ⟨colorBody_isWritten, hlines, hclose,
    (read_enumBody colorBody_isWritten hlines hclose ["print()".toList]).1⟩

end LuaReference
