import LuaReference.Proofs.Source.TableLines
import LuaReference.Proofs.Source.UnquotedCode

set_option autoImplicit false

/-! # Comments in an enum table

A line that is all comment is passed over unless it gives a type, and of the other lines only the
code is read: its first brace, its braces, its entry. So a table can be read without its comments,
to the same values and up to the same line (`read_withoutComments`), as long as the code has no
string literals.

The brace that begins the table is the exception. It is looked for on whole lines, so a brace in a
comment begins the table as well, and what is read of the lines behind it is another table.
-/

namespace LuaReference

namespace EnumTable

/-! ## Lines without their comments -/

/-- Whether a line is a comment that gives no type. -/
def isRemark (line : Text) : Bool :=
  isComment (Text.trim line) && !typeMarker.isPrefixOf (Text.trim line)

/-- A line of code without the comment behind it; a comment stays. -/
def uncommented (line : Text) : Text :=
  if isComment (Text.trim line) then line else Text.cutAt commentMarker line

/-- The lines without comments, but for those that give a type. -/
def withoutComments (lines : List Text) : List Text :=
  (lines.filter fun line => !isRemark line).map uncommented

/-- The first of some lines with a brace, unless one in front of it begins with a closing one. -/
def opener? (lines : List Text) : Option Text :=
  (lines.find? fun line => '\x7b' ∈ line || startsWithClose (Text.trim line)).filter ('\x7b' ∈ ·)

/-- The line on which the table is taken to begin: the first with a brace, unless one behind the
first line begins with a closing brace in front of it. -/
def beginsOn? (first : Text) (lines : List Text) : Option Text :=
  if '\x7b' ∈ first then some first else opener? lines

theorem withoutComments_cons_of_remark {line : Text} (h : isRemark line = true)
    (rest : List Text) : withoutComments (line :: rest) = withoutComments rest := by
  rw [withoutComments, List.filter_cons_of_neg (by simp [h]), withoutComments]

theorem withoutComments_cons {line : Text} (h : ¬ isRemark line = true) (rest : List Text) :
    withoutComments (line :: rest) = uncommented line :: withoutComments rest := by
  rw [withoutComments, List.filter_cons_of_pos (by simp [h]), List.map_cons, withoutComments]

/-! ## One line -/

theorem entryName?_trim (text : Text) : entryName? (Text.trim text) = entryName? text := by
  have hcut : Code.ofLine (Text.cutAt [','] (Text.trim text)) =
      Code.ofLine (Text.cutAt [','] text) := by
    rw [← Code.ofLine_trim, Text.trim_cutAt_trim (by decide), Code.ofLine_trim]
  rw [entryName?, entryName?, hcut]

/-- A comment is cut off in front of the first comma or behind it. -/
theorem cutAt_comma_comment (text : Text) :
    Text.cutAt [','] (Text.cutAt commentMarker text) =
      Text.cutAt commentMarker (Text.cutAt [','] text) := by
  induction text with
  | nil => rfl
  | cons c rest ih =>
      by_cases hcomma : c = ','
      · subst hcomma
        have hmark : commentMarker.isPrefixOf (',' :: rest) = false :=
          Text.isPrefixOf_cons_eq_false (by decide) _ _
        rw [Text.cutAt_cons commentMarker, hmark, if_neg Bool.false_ne_true]
        rfl
      · -- a comment mark is found behind the character just if one is left there by the comma
        have hcut (behind : Text) :
            Text.cutAt [','] (c :: behind) = c :: Text.cutAt [','] behind := by
          rw [Text.cutAt_cons, if_neg]
          simpa using fun heq => hcomma heq.symm
        have hhead : (Text.cutAt [','] rest).head? = some '-' ↔ rest.head? = some '-' := by
          cases rest with
          | nil => rfl
          | cons d rest =>
              rw [Text.cutAt_cons]
              split
              · rename_i hd
                obtain rfl : ',' = d := by simpa using hd
                simp
              · rfl
        rw [hcut, Text.cutAt_cons, Text.cutAt_cons, Code.isPrefixOf_cons_congr hhead]
        split
        · rfl
        · rw [hcut, ih]

theorem entryName?_cutAt (text : Text) :
    entryName? (Text.cutAt commentMarker text) = entryName? text := by
  rw [entryName?, cutAt_comma_comment, Code.ofLine, Text.cutAt_cutAt (by decide), entryName?,
    Code.ofLine]

/-- A line of code is read by its code alone. -/
theorem codeLine_ofLine {text : Text} (h : Code.Unquoted text) (depth : Nat) (types : List Text) :
    codeLine depth types (Code.ofLine text) = codeLine depth types (Text.trim text) := by
  have hname : entryName? (Code.ofLine text) = entryName? (Text.trim text) :=
    calc entryName? (Text.trim (Text.cutAt commentMarker text))
        = entryName? (Text.cutAt commentMarker text) := entryName?_trim _
      _ = entryName? text := entryName?_cutAt text
      _ = entryName? (Text.trim text) := (entryName?_trim text).symm
  rw [codeLine, codeLine, Code.braceBalance_ofLine h, hname]

section Step

variable {line : Text} (hline : Code.Unquoted line)

include hline

/-- A brace in the code begins the table the same way with the comment and without it. -/
theorem openingLine?_cutAt (hbrace : '\x7b' ∈ line → '\x7b' ∈ Text.cutAt commentMarker line)
    (types : List Text) :
    openingLine? types (Text.cutAt commentMarker line) = openingLine? types line := by
  by_cases hmem : '\x7b' ∈ line
  · obtain ⟨front, behind, rfl, hfront⟩ := List.eq_append_cons_of_mem hmem
    -- the comment is behind the brace
    have hmark : ¬ commentMarker <:+: front := fun hin =>
      hfront ((Text.cutAt_append_isPrefix hin _).subset (hbrace hmem))
    have hcut : Text.cutAt commentMarker (front ++ '\x7b' :: behind) =
        front ++ '\x7b' :: Text.cutAt commentMarker behind :=
      Text.cutAt_append_cons (by decide) hmark behind
    have hbehind : Code.Unquoted behind := by
      rw [List.append_cons] at hline
      refine hline.of_append ?_
      rw [← List.append_cons, hcut]
      exact List.prefix_append_right_inj front |>.mpr (by simp)
    have hbody : Text.trim (Text.cutAt commentMarker behind) = Code.ofLine behind := rfl
    simp only [openingLine?, hcut, Code.afterBrace?, Text.after?_append hfront, Option.map_some,
      hbody]
    by_cases hcomment : commentMarker <+: Text.trim behind
    · have hpassed : commentMarker.isPrefixOf (Text.trim behind) = true :=
        List.isPrefixOf_iff_prefix.mpr hcomment
      simp [Code.ofLine_eq_nil hcomment, hpassed]
    · rw [codeLine_ofLine hbehind]
      simp [Code.isEmpty_ofLine hcomment, hcomment, Code.not_isPrefix_ofLine]
  · have hcut : '\x7b' ∉ Text.cutAt commentMarker line :=
      fun hin => hmem ((Text.cutAt_isPrefix _ _).subset hin)
    rw [openingLine?, openingLine?, Code.afterBrace?_eq_none_iff.mpr hmem,
      Code.afterBrace?_eq_none_iff.mpr hcut]

/-- A line does the same with its comment and without it. -/
theorem step_uncommented (table : EnumTable)
    (hbrace : table.depth = none → '\x7b' ∈ line → '\x7b' ∈ Text.cutAt commentMarker line) :
    step table (uncommented line) = step table line := by
  by_cases hcomment : commentMarker <+: Text.trim line
  · have hpassed : isComment (Text.trim line) = true := List.isPrefixOf_iff_prefix.mpr hcomment
    rw [uncommented, if_pos hpassed]
  · have htrim : Text.trim (Text.cutAt commentMarker line) = Code.ofLine line := rfl
    have hclose : startsWithClose (Code.ofLine line) = startsWithClose (Text.trim line) := by
      rw [startsWithClose, Code.head_ofLine hcomment, startsWithClose]
    have htype {text : Text} (h : ¬ commentMarker <+: text) : ¬ typeMarker <+: text :=
      fun hmark => h ((show commentMarker <+: typeMarker by decide).trans hmark)
    rw [uncommented, if_neg (by simpa [isComment] using hcomment)]
    obtain ⟨depth, types⟩ := table
    cases depth with
    | none =>
        have hopening : openingLine? types (Code.ofLine line) =
            openingLine? types (Text.trim line) := by
          rw [Code.ofLine, openingLine?_trim, openingLine?_cutAt hline (hbrace rfl),
            openingLine?_trim]
        simp only [step, htrim, hopening, hclose]
    | some depth =>
        simp [step, htrim, hclose, codeLine_ofLine hline, Code.isEmpty_ofLine hcomment, hcomment,
          Code.not_isPrefix_ofLine, htype hcomment, htype (Code.not_isPrefix_ofLine line)]

end Step

/-- A comment that gives no type is passed over, unless the table is taken to begin on it. -/
theorem step_remark (table : EnumTable) {line : Text} (hremark : isRemark line = true)
    (hbrace : table.depth = none → '\x7b' ∉ line) : step table line = ⟨[], some table⟩ := by
  rw [isRemark, isComment, Bool.and_eq_true, Bool.not_eq_true'] at hremark
  refine step_comment table (List.isPrefixOf_iff_prefix.mp hremark.1) ?_ fun hdepth hmem =>
    hbrace hdepth ((Text.trim_isInfix line).subset hmem)
  rw [← List.isPrefixOf_iff_prefix, hremark.2]
  exact Bool.false_ne_true

/-! ## All lines -/

theorem depth_ne_none_of_atDepth {depth : Int} {types : List Text} {next : EnumTable}
    (h : atDepth depth types = some next) : next.depth ≠ none := by
  rw [atDepth] at h
  split at h
  · obtain rfl := Option.some.inj h
    simp
  · cases h

theorem depth_ne_none_of_codeLine {depth : Nat} {types : List Text} {text : Text}
    {next : EnumTable} (h : (codeLine depth types text).next = some next) : next.depth ≠ none := by
  rw [codeLine] at h
  split at h <;> exact depth_ne_none_of_atDepth h

/-- Behind the brace that begins it the table is not still to come. -/
theorem depth_ne_none_of_openingLine? {types : List Text} {line : Text} {progress : Progress}
    (h : openingLine? types line = some progress) {next : EnumTable}
    (hnext : progress.next = some next) : next.depth ≠ none := by
  obtain ⟨body, -, rfl⟩ := Option.map_eq_some_iff.mp h
  split at hnext
  · obtain rfl := Option.some.inj hnext
    simp
  · exact depth_ne_none_of_codeLine hnext

theorem isSome_openingLine? (types : List Text) (line : Text) :
    (openingLine? types line).isSome = true ↔ '\x7b' ∈ line := by
  rw [openingLine?, Option.isSome_map, Code.isSome_afterBrace?]

/-- A table that has begun is not still to come. -/
theorem depth_ne_none_of_step {depth : Nat} {types : List Text} {line : Text} {next : EnumTable}
    (h : (step ⟨some depth, types⟩ line).next = some next) : next.depth ≠ none := by
  simp only [step] at h
  split at h
  · cases h
  · split at h
    · obtain rfl := Option.some.inj h
      simp
    · split at h
      · obtain rfl := Option.some.inj h
        simp
      · exact depth_ne_none_of_codeLine h

/-- The table is still to come behind a line only if it was in front of it, and the line neither
begins it nor keeps it from beginning. -/
theorem passed_of_step {table next : EnumTable} {line : Text}
    (hstep : (step table line).next = some next) (hnext : next.depth = none) :
    table.depth = none ∧ '\x7b' ∉ line ∧ startsWithClose (Text.trim line) = false := by
  obtain ⟨depth, types⟩ := table
  cases depth with
  | some depth => exact absurd hnext (depth_ne_none_of_step hstep)
  | none =>
      simp only [step, openingLine?_trim] at hstep
      cases hopening : openingLine? types line with
      | some progress =>
          rw [hopening] at hstep
          exact absurd hnext (depth_ne_none_of_openingLine? hopening hstep)
      | none =>
          have hbrace : '\x7b' ∉ line := by
            rw [← isSome_openingLine? types, hopening]
            exact Bool.false_ne_true
          rw [hopening] at hstep
          cases hclose : startsWithClose (Text.trim line) with
          | false => exact ⟨rfl, hbrace, rfl⟩
          | true => simp [hclose] at hstep

/-- The table is still to come behind a first line without a brace only. -/
theorem not_mem_of_start {first : Text} {table : EnumTable}
    (hstart : (start first).next = some table) (hdepth : table.depth = none) :
    '\x7b' ∉ first := by
  intro hmem
  obtain ⟨progress, hprogress⟩ :=
    Option.isSome_iff_exists.mp ((isSome_openingLine? [] first).mpr hmem)
  rw [start, hprogress, Option.getD_some] at hstart
  exact depth_ne_none_of_openingLine? hprogress hstart hdepth

theorem opener?_cons_of_passed {line : Text} (hbrace : '\x7b' ∉ line)
    (hclose : startsWithClose (Text.trim line) = false) (rest : List Text) :
    opener? (line :: rest) = opener? rest := by
  rw [opener?, List.find?_cons_of_neg (by simp [hbrace, hclose]), opener?]

theorem opener?_cons_of_mem {line : Text} (hbrace : '\x7b' ∈ line) (rest : List Text) :
    opener? (line :: rest) = some line := by
  rw [opener?, List.find?_cons_of_pos (by simp [hbrace])]
  simp [hbrace]

/-- The rest of a table is read the same with its comments and without them. -/
theorem readFrom_withoutComments {lines : List Text}
    (hliterals : ∀ line ∈ lines, Code.Unquoted line) {table : EnumTable}
    (hopens : table.depth = none →
      ∀ line ∈ opener? lines, '\x7b' ∈ Text.cutAt commentMarker line) :
    ∃ taken : List Text, lines = taken ++ (readFrom table lines).2 ∧
      ((readFrom table lines).2 ≠ [] → ∃ last ∈ taken.getLast?, isRemark last = false) ∧
      readFrom table (withoutComments lines) =
        ((readFrom table lines).1, withoutComments (readFrom table lines).2) := by
  induction lines generalizing table with
  | nil => exact ⟨[], rfl, fun h => absurd rfl h, rfl⟩
  | cons line rest ih =>
      have hline : Code.Unquoted line := hliterals line List.mem_cons_self
      have hrest : ∀ other ∈ rest, Code.Unquoted other :=
        fun other ho => hliterals other (List.mem_cons_of_mem line ho)
      have hbrace : table.depth = none → '\x7b' ∈ line →
          '\x7b' ∈ Text.cutAt commentMarker line := fun hdepth hmem =>
        hopens hdepth line (opener?_cons_of_mem hmem rest)
      have hpassed {next : EnumTable} (hstep : (step table line).next = some next)
          (hnext : next.depth = none) : ∀ other ∈ opener? rest,
            '\x7b' ∈ Text.cutAt commentMarker other := by
        obtain ⟨hdepth, hmem, hclose⟩ := passed_of_step hstep hnext
        rw [← opener?_cons_of_passed hmem hclose]
        exact hopens hdepth
      by_cases hremark : isRemark line = true
      · -- the line is left out, and it did nothing
        have hcomment : commentMarker <+: Text.trim line :=
          List.isPrefixOf_iff_prefix.mp (Bool.and_eq_true _ _ ▸ hremark).1
        have hstep : step table line = ⟨[], some table⟩ :=
          step_remark table hremark fun hdepth hmem =>
            Code.not_mem_cutAt_of_comment (by decide) hcomment (hbrace hdepth hmem)
        have hread : readFrom table (line :: rest) = readFrom table rest := by
          simp only [readFrom, hstep, List.nil_append]
        obtain ⟨taken, hlines, hlast, hsame⟩ := ih hrest (hpassed (by rw [hstep]))
        rw [hread, withoutComments_cons_of_remark hremark]
        refine ⟨line :: taken, congrArg (line :: ·) hlines, fun hleft => ?_, hsame⟩
        obtain ⟨last, hmem, hcode⟩ := hlast hleft
        exact ⟨last, List.mem_getLast?_cons hmem, hcode⟩
      · -- the line is read without its comment, and does the same
        have hstep : step table (uncommented line) = step table line :=
          step_uncommented hline table hbrace
        rw [withoutComments_cons hremark]
        cases hnext : (step table line).next with
        | none =>
            simp only [readFrom, hstep, hnext]
            exact ⟨[line], rfl, fun _ => ⟨line, rfl, Bool.not_eq_true _ ▸ hremark⟩, trivial⟩
        | some next =>
            simp only [readFrom, hstep, hnext]
            obtain ⟨taken, hlines, hlast, hsame⟩ := ih hrest (hpassed hnext)
            rw [hsame]
            refine ⟨line :: taken, congrArg (line :: ·) hlines, fun hleft => ?_, rfl⟩
            obtain ⟨last, hmem, hcode⟩ := hlast hleft
            exact ⟨last, List.mem_getLast?_cons hmem, hcode⟩

/-- **Comments do not matter to a table that begins in the code.** If no string literal begins in
the code of the lines, and the brace that begins the table is no part of a comment, then the table
has the same values without its comments, and it is read up to the same line: one of the code,
unless no line is left behind it. -/
theorem read_withoutComments {first : Text} {lines : List Text}
    (hliterals : ∀ line ∈ first :: lines, Code.NoLiterals line)
    (hopens : ∀ line ∈ beginsOn? first lines, '\x7b' ∈ Text.cutAt commentMarker line) :
    ∃ taken : List Text, lines = taken ++ (read first lines).2 ∧
      ((read first lines).2 ≠ [] → ∀ last ∈ taken.getLast?, isRemark last = false) ∧
      read (Text.cutAt commentMarker first) (withoutComments lines) =
        ((read first lines).1, withoutComments (read first lines).2) := by
  have hfirst : Code.Unquoted first := (hliterals first List.mem_cons_self).unquoted
  have hrest : ∀ line ∈ lines, Code.Unquoted line :=
    fun line hl => (hliterals line (List.mem_cons_of_mem first hl)).unquoted
  have hbrace : '\x7b' ∈ first → '\x7b' ∈ Text.cutAt commentMarker first :=
    fun hmem => hopens first (if_pos hmem)
  have hstart : start (Text.cutAt commentMarker first) = start first := by
    rw [start, openingLine?_cutAt hfirst hbrace, start]
  cases hnext : (start first).next with
  | none =>
      simp only [read, hstart, hnext]
      refine ⟨[], rfl, ?_, trivial⟩
      rintro - last ⟨⟩
  | some table =>
      have hlater : table.depth = none →
          ∀ line ∈ opener? lines, '\x7b' ∈ Text.cutAt commentMarker line := by
        intro hdepth line hline
        have hmem := not_mem_of_start hnext hdepth
        exact hopens line (by rwa [beginsOn?, if_neg hmem])
      obtain ⟨taken, hlines, hlast, hsame⟩ := readFrom_withoutComments hrest hlater
      simp only [read, hstart, hnext, hsame]
      refine ⟨taken, hlines, fun hleft last hmem => ?_, trivial⟩
      obtain ⟨other, hother, hcode⟩ := hlast hleft
      rwa [Option.mem_unique hmem hother]

/-- A table with comments of all kinds, braces and quotes in some of them. -/
theorem read_commentedLevels :
    let first := "Level = \x7b -- it\x27s \x7b these\x27".toList
    let lines := ["  -- no \x7d".toList, "  ---@type integer how \x7b much".toList,
      "  DEBUG = \x7b 1, -- \x7d".toList, "    2 \x7d, -- done \x7b".toList, "".toList,
      "  INFO = 2 \x7d -- the end".toList, "-- more".toList, "x = 1".toList]
    (∀ line ∈ first :: lines, Code.NoLiterals line) ∧
      (∀ line ∈ beginsOn? first lines, '\x7b' ∈ Text.cutAt commentMarker line) ∧
      read "Level = \x7b ".toList ["  ---@type integer how \x7b much".toList,
          "  DEBUG = \x7b 1, ".toList, "    2 \x7d, ".toList, "".toList, "  INFO = 2 \x7d ".toList,
          "x = 1".toList] =
        ([⟨"DEBUG".toList, "integer".toList, false, some "how \x7b much".toList⟩,
          ⟨"INFO".toList, anyType, false, none⟩], ["x = 1".toList]) := by
  intro first lines
  have hliterals : ∀ line ∈ first :: lines, Code.NoLiterals line := by decide +kernel
  have hopens : ∀ line ∈ beginsOn? first lines, '\x7b' ∈ Text.cutAt commentMarker line := by
    decide +kernel
  refine ⟨hliterals, hopens, ?_⟩
  obtain ⟨taken, -, -, hread⟩ := read_withoutComments hliterals hopens
  have hfirst : Text.cutAt commentMarker first = "Level = \x7b ".toList := by decide +kernel
  have hlines : withoutComments lines = ["  ---@type integer how \x7b much".toList,
      "  DEBUG = \x7b 1, ".toList, "    2 \x7d, ".toList, "".toList, "  INFO = 2 \x7d ".toList,
      "x = 1".toList] := by
    decide +kernel
  rw [hfirst, hlines] at hread
  rw [hread]
  decide +kernel

/-- A brace in a comment begins the table, on the first line or on one of its own, and then the
entries are not found. -/
theorem read_commentedBrace :
    let entry := "  RED = 1,".toList
    let red : FieldDoc := ⟨"RED".toList, anyType, false, none⟩
    let lines := ["\x7b".toList, entry, "\x7d".toList]
    read "Color = -- \x7b old \x7d".toList lines = ([], lines) ∧
      read (Text.cutAt commentMarker "Color = -- \x7b old \x7d".toList) (withoutComments lines) =
        ([red], []) ∧
      read "Color =".toList ("-- \x7b".toList :: lines) = ([], []) ∧
      read "Color =".toList (withoutComments ("-- \x7b".toList :: lines)) = ([red], []) := by
  decide +kernel

end EnumTable

end LuaReference
