import LuaReference.Proofs.Source.EnumBody
import LuaReference.Proofs.Source.PathReading
import Mathlib.Algebra.Ring.Int.Defs
import Mathlib.Data.List.DropRight
import Mathlib.Data.List.Induction

set_option autoImplicit false

/-! # An enum table by its lines

The table of an enum is read with a place in hand, which every line may move. Here the same table is
described without reading it from the start: what a line does is told from the lines in front of it.
They have opened the table or not, and so many braces of the body are open behind them
(`depthBehind`). From that follow the line that ends the table (`Ends`), the lines that name an
entry (`named?`) and the type comments that wait for it (`typesBehind`).

`step_eq` says that reading one line does what is described, wherever the line stands.
-/

namespace LuaReference

namespace EnumTable

/-! ## What a line means behind others -/

/-- Whether one of the lines has the brace that begins the table. -/
def Opened (lines : List Text) : Prop := ∃ line ∈ lines, '\x7b' ∈ line

instance (lines : List Text) : Decidable (Opened lines) :=
  inferInstanceAs (Decidable (∃ line ∈ lines, '\x7b' ∈ line))

/-- The body of a table as far as it has been read: the text behind the first brace and the lines
behind that one, trimmed. -/
def body : List Text → List Text
  | [] => []
  | line :: rest =>
      match Code.afterBrace? line with
      | none => body rest
      | some text => text :: rest.map Text.trim

/-- Whether a line of the body is all comment. -/
def isComment (text : Text) : Bool := commentMarker.isPrefixOf text

/-- How many braces are open behind some lines, counted on the lines of the body that are not all
comment. -/
def depthBehind (lines : List Text) : Int :=
  (((body lines).filter (!isComment ·)).map Code.braceBalance).sum

section Line

variable (before : List Text) (line : Text)

/-- The line of the body that a line adds to those in front of it. -/
def bodyLine? : Option Text :=
  if Opened before then some (Text.trim line) else Code.afterBrace? line

/-- Whether a line closes the table: no entry is open, and it begins with a closing brace. -/
def Closes : Prop :=
  Opened before ∧ startsWithClose (Text.trim line) = true ∧ depthBehind before = 0

/-- Whether a line is the last one of a table. It begins with a closing brace though no table has
begun (which does not count for the first line), it closes the table, or it closes more braces than
are open. -/
def Ends : Prop :=
  (before ≠ [] ∧ ¬ Opened (before ++ [line]) ∧ startsWithClose (Text.trim line) = true) ∨
    Closes before line ∨ depthBehind (before ++ [line]) < 0

instance : Decidable (Closes before line) := inferInstanceAs (Decidable (_ ∧ _))

instance : Decidable (Ends before line) := inferInstanceAs (Decidable (_ ∨ _))

/-- The name of the entry on a line, if no entry is open in front of it. -/
def named? : Option Text :=
  if Closes before line ∨ depthBehind before ≠ 0 then none
  else (bodyLine? before line).bind fun text => if isComment text then none else entryName? text

/-- Whether a line is a type comment between two entries. -/
def Waits : Prop := Opened before ∧ depthBehind before = 0 ∧ typeMarker <+: Text.trim line

instance : Decidable (Waits before line) := inferInstanceAs (Decidable (_ ∧ _))

end Line

/-- The lines, each with those in front of it. -/
def places (lines : List Text) : List (List Text × Text) :=
  lines.mapIdx fun n line => (lines.take n, line)

/-- The type comments behind the last line that uses them up. -/
def typesSince (uses : List Text → Text → Bool) (lines : List Text) : List Text :=
  (((places lines).rtakeWhile fun place => !uses place.1 place.2).filter fun place =>
    Waits place.1 place.2).map fun place => Text.trim place.2

/-- The type comments that wait for an entry: those behind the last line that names one. -/
def typesBehind (lines : List Text) : List Text :=
  typesSince (fun before line => (named? before line).isSome) lines

/-- The entries of a table, each with the lines in front of it. -/
def entries (lines : List Text) : List (List Text × Text) :=
  (places lines).filterMap fun place => (named? place.1 place.2).map (place.1, ·)

/-- The values of a table, one for each entry. -/
def values (lines : List Text) : List FieldDoc :=
  (entries lines).map fun entry => value entry.2 (typesBehind entry.1)

/-- Whether a text has a word with an equals sign behind it, once it is cut at its first comma and
then at its first comment mark. -/
def HasEntry (text : Text) : Prop :=
  ∃ front name blanks behind : Text, Text.IsWord name ∧ (∀ c ∈ blanks, isBlank c = true) ∧
    Code.ofLine (Text.cutAt [','] text) = front ++ (name ++ (blanks ++ '=' :: behind))

/-! ## One more line -/

section Concat

variable (before : List Text) (line : Text)

theorem opened_concat : Opened (before ++ [line]) ↔ Opened before ∨ '\x7b' ∈ line := by
  simp [Opened, or_and_right, exists_or]

theorem body_of_not_opened {lines : List Text} (h : ¬ Opened lines) : body lines = [] := by
  induction lines with
  | nil => rfl
  | cons line rest ih =>
      have hline : '\x7b' ∉ line := fun hbrace => h ⟨line, by simp, hbrace⟩
      have hrest : ¬ Opened rest := fun ⟨other, ho, hbrace⟩ => h ⟨other, by simp [ho], hbrace⟩
      rw [body, Code.afterBrace?_eq_none_iff.mpr hline]
      exact ih hrest

theorem body_concat : body (before ++ [line]) = body before ++ (bodyLine? before line).toList := by
  induction before with
  | nil =>
      rw [bodyLine?, if_neg (by simp [Opened])]
      cases hline : Code.afterBrace? line <;> simp [body, hline]
  | cons first rest ih =>
      rw [List.cons_append, body, body]
      cases hfirst : Code.afterBrace? first with
      | none =>
          have hbrace : '\x7b' ∉ first := Code.afterBrace?_eq_none_iff.mp hfirst
          have hopened : Opened (first :: rest) ↔ Opened rest := by simp [Opened, hbrace]
          simp only [ih, bodyLine?, hopened]
      | some text =>
          have hbrace : '\x7b' ∈ first := Code.mem_of_afterBrace? hfirst
          have hopened : Opened (first :: rest) := ⟨first, by simp, hbrace⟩
          simp [bodyLine?, hopened]

/-- A line moves the depth by the balance of what it adds to the body. -/
theorem depthBehind_concat : depthBehind (before ++ [line]) =
    depthBehind before + ((bodyLine? before line).map Code.braceBalance).getD 0 := by
  rw [depthBehind, body_concat, List.filter_append, List.map_append, List.sum_append, depthBehind]
  cases bodyLine? before line with
  | none => rfl
  | some text =>
      cases hcomment : isComment text with
      | false => simp [hcomment]
      | true =>
          have hzero := Code.braceBalance_comment (List.isPrefixOf_iff_prefix.mp hcomment)
          simp [hcomment, hzero]

theorem places_concat : places (before ++ [line]) = places before ++ [(before, line)] := by
  have hfront : before.mapIdx (fun n other => ((before ++ [line]).take n, other)) =
      before.mapIdx fun n other => (before.take n, other) :=
    List.mapIdx_eq_mapIdx_iff.mpr fun n hn => by rw [List.take_append_of_le_length (by omega)]
  rw [places, List.mapIdx_concat, hfront, List.take_left, places]

theorem typesSince_concat (uses : List Text → Text → Bool) :
    typesSince uses (before ++ [line]) =
      if uses before line then []
      else typesSince uses before ++ if Waits before line then [Text.trim line] else [] := by
  rw [typesSince, places_concat, List.rtakeWhile_concat, typesSince]
  cases uses before line with
  | true => rfl
  | false => by_cases hwaits : Waits before line <;> simp [hwaits]

theorem typesBehind_concat : typesBehind (before ++ [line]) =
    if (named? before line).isSome then []
    else typesBehind before ++ if Waits before line then [Text.trim line] else [] :=
  typesSince_concat before line _

theorem entries_concat : entries (before ++ [line]) =
    entries before ++ ((named? before line).map (before, ·)).toList := by
  rw [entries, places_concat, List.filterMap_append, entries]
  cases hnamed : named? before line <;> simp [hnamed]

/-- The value of the entry on a line, if it names one. -/
def value? : Option FieldDoc := (named? before line).map (value · (typesBehind before))

theorem values_concat :
    values (before ++ [line]) = values before ++ (value? before line).toList := by
  rw [values, entries_concat, List.map_append, values, value?]
  cases named? before line <;> rfl

end Concat

/-! ## Reading one more line -/

/-- The place behind some lines of which none has ended the table. -/
def placeBehind (lines : List Text) : EnumTable where
  depth := if Opened lines then some (depthBehind lines).toNat else none
  types := typesBehind lines

/-- What a line does behind others. -/
def progress (before : List Text) (line : Text) : Progress where
  values := (value? before line).toList
  next := if Ends before line then none else some (placeBehind (before ++ [line]))

section Step

variable {before : List Text} {line : Text}

theorem depthBehind_of_not_opened (h : ¬ Opened before) : depthBehind before = 0 := by
  rw [depthBehind, body_of_not_opened h]
  rfl

/-- No type comment waits in front of the table. -/
theorem typesBehind_of_not_opened (h : ¬ Opened before) : typesBehind before = [] := by
  induction before using List.reverseRecOn with
  | nil => rfl
  | append_singleton front last ih =>
      rw [opened_concat, not_or] at h
      have hwaits : ¬ Waits front last := fun hw => h.1 hw.1
      rw [typesBehind_concat, ih h.1, if_neg hwaits]
      split <;> rfl

/-- A line of code does what is described, as far as it names an entry and moves the depth. -/
theorem codeLine_eq {depth : Nat} {text : Text} (hd : depthBehind before = depth)
    (hclose : ¬ Closes before line) (hwaits : ¬ Waits before line)
    (hbody : bodyLine? before line = some text) (hcomment : isComment text = false)
    (hopened : Opened (before ++ [line])) :
    codeLine depth (typesBehind before) text = progress before line := by
  have hnamed : named? before line = if depth = 0 then entryName? text else none := by
    rw [named?, hbody, Option.bind_some, hcomment, hd]
    by_cases hzero : depth = 0
    · simp [hclose, hzero]
    · simp [hzero]
  have hbehind : depthBehind (before ++ [line]) = depth + Code.braceBalance text := by
    rw [depthBehind_concat, hbody, hd]
    rfl
  have hends : Ends before line ↔ ¬ 0 ≤ (depth : Int) + Code.braceBalance text := by
    simp [Ends, hopened, hclose, hbehind]
  have htypes : typesBehind (before ++ [line]) =
      if (named? before line).isSome then [] else typesBehind before := by
    rw [typesBehind_concat, if_neg hwaits, List.append_nil]
  rw [codeLine, progress, value?, placeBehind, if_pos hopened, hbehind, htypes, hnamed]
  by_cases hdepth : 0 ≤ (depth : Int) + Code.braceBalance text
  · rw [if_neg (hends.not.mpr (not_not_intro hdepth))]
    cases if depth = 0 then entryName? text else none <;> simp [atDepth, hdepth]
  · rw [if_pos (hends.mpr hdepth)]
    cases if depth = 0 then entryName? text else none <;> simp [atDepth, hdepth]

/-- A line of the body that is neither read as code nor closes the table only may leave a type
comment. -/
theorem progress_passed {text : Text} (hd : 0 ≤ depthBehind before)
    (hclose : ¬ Closes before line) (hbody : bodyLine? before line = some text)
    (hpassed : isComment text = true ∨ text = []) (hopened : Opened (before ++ [line])) :
    progress before line = ⟨[], some ⟨some (depthBehind before).toNat,
      typesBehind before ++ if Waits before line then [Text.trim line] else []⟩⟩ := by
  have hnamed : named? before line = none := by
    rw [named?, hbody, Option.bind_some]
    rcases hpassed with hcomment | rfl
    · simp [hcomment]
    · exact ite_self none
  have hzero : Code.braceBalance text = 0 := by
    rcases hpassed with hcomment | rfl
    · exact Code.braceBalance_comment (List.isPrefixOf_iff_prefix.mp hcomment)
    · rfl
  have hbehind : depthBehind (before ++ [line]) = depthBehind before := by
    rw [depthBehind_concat, hbody, Option.map_some, Option.getD_some, hzero, Int.add_zero]
  have hends : ¬ Ends before line := by
    rintro (⟨-, hnot, -⟩ | hcloses | hneg)
    · exact hnot hopened
    · exact hclose hcloses
    · omega
  rw [progress, value?, hnamed, if_neg hends, placeBehind, if_pos hopened, hbehind,
    typesBehind_concat, hnamed]
  rfl

/-- The line with the brace that begins the table does what is described. -/
theorem openingLine_eq {text : Text} (hnot : ¬ Opened before)
    (hline : Code.afterBrace? line = some text) :
    openingLine? [] line = some (progress before line) := by
  have hbody : bodyLine? before line = some text := by rw [bodyLine?, if_neg hnot, hline]
  have hclose : ¬ Closes before line := fun h => hnot h.1
  have hwaits : ¬ Waits before line := fun h => hnot h.1
  have hzero : depthBehind before = 0 := depthBehind_of_not_opened hnot
  have hbrace : '\x7b' ∈ line := Code.mem_of_afterBrace? hline
  have hopened : Opened (before ++ [line]) := (opened_concat before line).mpr (.inr hbrace)
  rw [openingLine?, hline, Option.map_some, Option.some_inj]
  split
  · rename_i hpassed
    have hcases : isComment text = true ∨ text = [] := by
      simpa [isComment, or_comm] using hpassed
    rw [progress_passed (by omega) hclose hbody hcases hopened, if_neg hwaits, hzero,
      typesBehind_of_not_opened hnot]
    rfl
  · rename_i hcode
    have hcomment : isComment text = false :=
      (Bool.or_eq_false_iff.mp (Bool.eq_false_iff.mpr hcode)).2
    rw [← codeLine_eq hzero hclose hwaits hbody hcomment hopened, typesBehind_of_not_opened hnot]

/-- A line in front of the table that does not begin it does nothing, unless it begins with a
closing brace. -/
theorem progress_unopened (hnot : ¬ Opened before) (hbrace : '\x7b' ∉ line) :
    progress before line =
      ⟨[], if before ≠ [] ∧ startsWithClose (Text.trim line) = true then none else some {}⟩ := by
  have hnone : Code.afterBrace? line = none := Code.afterBrace?_eq_none_iff.mpr hbrace
  have hstill : ¬ Opened (before ++ [line]) := by
    rw [opened_concat]
    exact not_or_intro hnot hbrace
  have hnamed : named? before line = none := by
    rw [named?, bodyLine?, if_neg hnot, hnone]
    exact ite_self none
  have hzero : depthBehind (before ++ [line]) = 0 := depthBehind_of_not_opened hstill
  have hends : Ends before line ↔ before ≠ [] ∧ startsWithClose (Text.trim line) = true := by
    simp [Ends, Closes, hnot, hstill, hzero]
  rw [progress, value?, hnamed, placeBehind, if_neg hstill, typesBehind_of_not_opened hstill]
  simp only [hends]
  rfl

theorem openingLine?_trim (types : List Text) (line : Text) :
    openingLine? types (Text.trim line) = openingLine? types line := by
  rw [openingLine?, Code.afterBrace?_trim, openingLine?]

/-- The first line does what is described. -/
theorem start_eq (line : Text) : start line = progress [] line := by
  have hnot : ¬ Opened [] := by simp [Opened]
  rw [start]
  cases hline : Code.afterBrace? line with
  | none =>
      have hbrace : '\x7b' ∉ line := Code.afterBrace?_eq_none_iff.mp hline
      rw [progress_unopened hnot hbrace, openingLine?, hline]
      rfl
  | some text => rw [openingLine_eq hnot hline, Option.getD_some]

/-- A line behind the brace that begins the table does what is described. -/
theorem step_opened (hopened : Opened before) (hd : 0 ≤ depthBehind before) :
    step ⟨some (depthBehind before).toNat, typesBehind before⟩ line = progress before line := by
  have hbody : bodyLine? before line = some (Text.trim line) := if_pos hopened
  have hstill : Opened (before ++ [line]) := (opened_concat before line).mpr (.inl hopened)
  have hiff : (depthBehind before).toNat = 0 ↔ depthBehind before = 0 := by omega
  simp only [step, hiff]
  split
  · -- the line closes the table
    rename_i hends
    have hcloses : Closes before line := by
      rw [Bool.and_eq_true, decide_eq_true_eq] at hends
      exact ⟨hopened, hends.2, hends.1⟩
    rw [progress, value?, named?, if_pos (.inl hcloses), if_pos (.inr (.inl hcloses))]
    rfl
  · rename_i hends
    have hclose : ¬ Closes before line := by
      rintro ⟨-, hbrace, hzero⟩
      simp [hbrace, hzero] at hends
    split
    · -- a type comment waits only between two entries
      rename_i htype
      have hmark : typeMarker <+: Text.trim line := List.isPrefixOf_iff_prefix.mp htype
      have hcomment : isComment (Text.trim line) = true := List.isPrefixOf_iff_prefix.mpr
        ((show commentMarker <+: typeMarker by decide).trans hmark)
      have hwaits : Waits before line ↔ depthBehind before = 0 := by
        simp [Waits, hopened, hmark]
      rw [progress_passed hd hclose hbody (.inl hcomment) hstill]
      simp only [hwaits]
      split <;> simp
    · rename_i htype
      have hwaits : ¬ Waits before line := fun h => htype (List.isPrefixOf_iff_prefix.mpr h.2.2)
      split
      · -- other comments and blank lines are passed over
        rename_i hpassed
        have hcases : isComment (Text.trim line) = true ∨ Text.trim line = [] := by
          simpa [isComment] using hpassed
        rw [progress_passed hd hclose hbody hcases hstill, if_neg hwaits, List.append_nil]
      · rename_i hcode
        have hcomment : isComment (Text.trim line) = false :=
          (Bool.or_eq_false_iff.mp (Bool.eq_false_iff.mpr hcode)).1
        exact codeLine_eq (by omega) hclose hwaits hbody hcomment hstill

/-- Every further line does what is described. -/
theorem step_eq (hb : before ≠ []) (hd : 0 ≤ depthBehind before) :
    step (placeBehind before) line = progress before line := by
  by_cases hopened : Opened before
  · rw [placeBehind, if_pos hopened]
    exact step_opened hopened hd
  · rw [placeBehind, if_neg hopened, typesBehind_of_not_opened hopened, step]
    simp only [openingLine?_trim]
    cases hline : Code.afterBrace? line with
    | none =>
        have hbrace : '\x7b' ∉ line := Code.afterBrace?_eq_none_iff.mp hline
        rw [progress_unopened hopened hbrace, openingLine?, hline]
        simp [hb]
    | some text => rw [openingLine_eq hopened hline]

end Step

/-! ## The lines that name an entry -/

theorem isSome_entry?_of_eq {name blanks : Text} (hn : Text.IsWord name)
    (hb : ∀ c ∈ blanks, isBlank c = true) (behind : Text) :
    (Declaration.entry? (name ++ (blanks ++ '=' :: behind))).isSome = true := by
  have hread := entry?_append hn hb behind
  rw [entryFront, List.append_assoc, List.append_assoc] at hread
  exact Option.isSome_of_eq_some hread

theorem eq_of_entry? {text name rest : Text} (h : Declaration.entry? text = some (name, rest)) :
    ∃ blanks : Text, Text.IsWord name ∧ (∀ c ∈ blanks, isBlank c = true) ∧
      text = name ++ (blanks ++ '=' :: rest) := by
  obtain ⟨⟨word, behind⟩, hword, hequals⟩ := Option.bind_eq_some_iff.mp h
  obtain ⟨rfl, hw⟩ := Text.eq_append_of_word? hword
  obtain ⟨blanks, hblanks, hall⟩ := Text.eq_blanks_append_skipBlanks behind
  simp only at hequals
  split at hequals
  · rename_i more hskip
    obtain ⟨rfl, rfl⟩ := Prod.mk.inj (Option.some.inj hequals)
    rw [hskip] at hblanks
    exact ⟨blanks, hw, hall, by rw [← hblanks]⟩
  · cases hequals

theorem isSome_entryName?_iff (text : Text) : (entryName? text).isSome = true ↔ HasEntry text := by
  rw [entryName?, Option.isSome_map]
  constructor
  · intro h
    obtain ⟨found, hfound⟩ := Option.isSome_iff_exists.mp h
    obtain ⟨behind, ⟨front, hfront⟩, hread⟩ := exists_of_search hfound
    obtain ⟨blanks, hn, hb, rfl⟩ := eq_of_entry? hread
    exact ⟨front, _, blanks, _, hn, hb, hfront.symm⟩
  · rintro ⟨front, name, blanks, behind, hn, hb, htext⟩
    rw [htext]
    exact isSome_search_append (isSome_entry?_of_eq hn hb behind) front

/-- A line names an entry if none is open in front of it, it does not close the table, and what it
adds to the body is no comment and has an entry. -/
theorem isSome_named?_iff (before : List Text) (line : Text) :
    (named? before line).isSome = true ↔ ¬ Closes before line ∧ depthBehind before = 0 ∧
      ∃ text ∈ bodyLine? before line, ¬ commentMarker <+: text ∧ HasEntry text := by
  rw [named?]
  split
  · rename_i hpassed
    refine iff_of_false (by simp) ?_
    rintro ⟨hclose, hzero, -⟩
    exact hpassed.elim hclose (· hzero)
  · rename_i hread
    rw [not_or, not_not] at hread
    simp only [hread, not_false_eq_true, true_and]
    cases hbody : bodyLine? before line with
    | none => simp
    | some text =>
        have hcomment : isComment text = true ↔ commentMarker <+: text :=
          List.isPrefixOf_iff_prefix
        simp [← hcomment, ← isSome_entryName?_iff, apply_ite]

end EnumTable

end LuaReference
