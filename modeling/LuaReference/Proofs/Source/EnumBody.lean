import LuaReference.Proofs.Source.WrittenCode
import LuaReference.Proofs.Tag.WrittenBlock
import LuaReference.Source.EnumTable

set_option autoImplicit false

/-! # Written enum tables

The table of an enum is written one entry per line, between blank lines and comments. An entry
may leave braces open, and then goes on over further lines until they are closed. The reader
gives back one value for each entry and stops behind the line that closes the table
(`EnumBody.read_lines`).

While no entry is open the reader is at depth zero and keeps no type comment, and every item
leads back there (`runs_items`). Inside of an entry all that a line does is to move the depth
(`step_inner`), so the lines of an entry are known from their balances alone (`runs_more`).
-/

namespace LuaReference

/-! ## What is written -/

/-- The braces that an entry leaves open are closed by the further lines: one at least is open in
front of each of them, and none behind the last. -/
def CodeLine.Closes : Int → List CodeLine → Prop
  | depth, [] => depth = 0
  | depth, line :: rest => 0 < depth ∧ Closes (depth + line.balance) rest

instance CodeLine.decidableCloses : (depth : Int) → (more : List CodeLine) →
    Decidable (Closes depth more)
  | depth, [] => inferInstanceAs (Decidable (depth = 0))
  | depth, line :: rest =>
      have := decidableCloses (depth + line.balance) rest
      inferInstanceAs (Decidable (0 < depth ∧ Closes (depth + line.balance) rest))

/-- An entry of an enum table. -/
structure EnumEntry where
  /-- The type comment in front of the entry. -/
  type : Option TypeDecl := none
  name : Text
  /-- The blanks in front of the equals sign. -/
  blanks : Text
  /-- What stands behind the equals sign. -/
  value : CodeLine
  /-- The lines on which the entry goes on. -/
  more : List CodeLine := []

/-- An item of an enum table. -/
inductive EnumItem where
  | blank
  /-- A line that is all comment. -/
  | comment (text : Text)
  | entry (entry : EnumEntry)

/-- The beginning of an enum table: its brace stands at the end of the first line of code or on
a line of its own behind it. -/
inductive EnumOpening where
  | sameLine (front : Text)
  | nextLine (first : Text)

namespace EnumEntry

/-- The line that names the entry. -/
def valueLine (entry : EnumEntry) : Text :=
  entry.name ++ (entry.blanks ++ '=' :: entry.value.text)

/-- The line of the type comment. -/
def typeLines (entry : EnumEntry) : List Text :=
  match entry.type with
  | none => []
  | some decl => [Tag.typeLine decl.type decl.description]

/-- The lines of the entry. -/
def lines (entry : EnumEntry) : List Text :=
  entry.typeLines ++ (entry.valueLine :: entry.more.map CodeLine.text)

/-- The value that the entry documents. -/
def field (entry : EnumEntry) : FieldDoc :=
  match entry.type with
  | none => { name := entry.name, type := anyType }
  | some decl =>
      { name := entry.name
        type := decl.type
        description := cleanDescription decl.description }

/-- What makes an entry one that can be written. -/
structure IsWritten (entry : EnumEntry) : Prop where
  type : ∀ decl ∈ entry.type, TypeExpr.IsTypeExpr decl.type ∧
    ∀ text ∈ decl.description, IsDescription text ∧ text.head? ≠ some ':'
  name : Text.IsWord entry.name
  blanks : ∀ c ∈ entry.blanks, isBlank c = true
  value : entry.value.IsWritten
  more : ∀ line ∈ entry.more, line.IsWritten
  closes : CodeLine.Closes entry.value.balance entry.more

end EnumEntry

namespace EnumItem

/-- The lines of the item. -/
def lines : EnumItem → List Text
  | .blank => [[]]
  | .comment text => [commentMarker ++ text]
  | .entry written => written.lines

/-- The value of the item, if it is an entry. -/
def field? : EnumItem → Option FieldDoc
  | .entry written => some written.field
  | _ => none

/-- What makes an item one that can be written: a comment gives no type. -/
def IsWritten : EnumItem → Prop
  | .blank => True
  | .comment text => ¬ EnumTable.typeMarker <+: commentMarker ++ text
  | .entry written => written.IsWritten

end EnumItem

namespace EnumOpening

/-- The first line of code. -/
def first : EnumOpening → Text
  | .sameLine front => front ++ ['\x7b']
  | .nextLine first => first

/-- The lines between the first line of code and the table. -/
def lines : EnumOpening → List Text
  | .sameLine _ => []
  | .nextLine _ => [['\x7b']]

/-- What makes an opening one that can be written: it has a single brace. -/
def IsWritten : EnumOpening → Prop
  | .sameLine front => '\x7b' ∉ front
  | .nextLine first => '\x7b' ∉ first

end EnumOpening

namespace EnumTable

/-! ## Runs -/

/-- Lines lead from one place of a table to another and add values on the way. -/
inductive Runs : EnumTable → List Text → List FieldDoc → EnumTable → Prop
  | nil {table : EnumTable} : Runs table [] [] table
  | cons {table next last : EnumTable} {line : Text} {lines : List Text}
      {values more : List FieldDoc} (head : step table line = ⟨values, some next⟩)
      (tail : Runs next lines more last) : Runs table (line :: lines) (values ++ more) last

theorem Runs.one {table next : EnumTable} {line : Text} {values : List FieldDoc}
    (h : step table line = ⟨values, some next⟩) : Runs table [line] values next := by
  have hrun := Runs.cons h .nil
  rwa [List.append_nil] at hrun

theorem Runs.append {table next last : EnumTable} {lines lines' : List Text}
    {values values' : List FieldDoc} (h : Runs table lines values next)
    (h' : Runs next lines' values' last) :
    Runs table (lines ++ lines') (values ++ values') last := by
  induction h with
  | nil => exact h'
  | cons head _ ih =>
      rw [List.cons_append, List.append_assoc]
      exact .cons head (ih h')

/-- Reading goes on behind a run with the values of the run in front. -/
theorem readFrom_append {table last : EnumTable} {lines : List Text} {values : List FieldDoc}
    (h : Runs table lines values last) (rest : List Text) :
    readFrom table (lines ++ rest) =
      (values ++ (readFrom last rest).1, (readFrom last rest).2) := by
  induction h with
  | nil => rfl
  | cons head _ ih =>
      rw [List.cons_append, readFrom, head]
      simp only [ih, List.append_assoc]

/-! ## Steps -/

/-- The place between two entries: no brace is open and no type comment waits. -/
def between : EnumTable := ⟨some 0, []⟩

/-- A blank line is passed over. -/
theorem step_blank (table : EnumTable) {line : Text} (h : Text.trim line = []) :
    step table line = ⟨[], some table⟩ := by
  obtain ⟨depth, types⟩ := table
  cases depth with
  | none =>
      simp only [step, h]
      rfl
  | some depth =>
      cases depth <;>
        · simp only [step, h]
          rfl

/-- A comment that gives no type is passed over. In front of the table it may hold no brace, since
there the brace that begins the table is looked for in comments as well. -/
theorem step_comment (table : EnumTable) {line : Text} (h : commentMarker <+: Text.trim line)
    (ht : ¬ typeMarker <+: Text.trim line)
    (hbrace : table.depth = none → '\x7b' ∉ Text.trim line) :
    step table line = ⟨[], some table⟩ := by
  have htype : typeMarker.isPrefixOf (Text.trim line) = false := by
    rw [← Bool.not_eq_true, List.isPrefixOf_iff_prefix]
    exact ht
  have hcomment : commentMarker.isPrefixOf (Text.trim line) = true :=
    List.isPrefixOf_iff_prefix.mpr h
  have hclose : startsWithClose (Text.trim line) = false := by
    obtain ⟨more, hmore⟩ := h
    rw [← hmore]
    rfl
  obtain ⟨depth, types⟩ := table
  cases depth with
  | none =>
      have hopen : openingLine? types (Text.trim line) = none := by
        rw [openingLine?, Code.afterBrace?, Text.after?_eq_none (hbrace rfl)]
        rfl
      simp only [step, hopen, hclose]
      rfl
  | some depth =>
      simp only [step, hclose, htype, hcomment, Bool.and_false, Bool.true_or, if_true]
      rfl

/-- A type comment waits for the next entry. -/
theorem step_typeLine {line type : Text} {description : Option Text}
    (h : Text.trim line = Tag.typeLine type description) :
    step between line = ⟨[], some ⟨some 0, [Tag.typeLine type description]⟩⟩ := by
  have htype : typeMarker.isPrefixOf (Tag.typeLine type description) = true := rfl
  have hclose : startsWithClose (Tag.typeLine type description) = false := rfl
  simp only [step, between, h, hclose, htype]
  rfl

/-- Inside of an entry a line moves the depth by its balance and does nothing else. -/
theorem step_inner {depth : Nat} (hd : 0 < depth) (types : List Text) (line : Text) :
    step ⟨some depth, types⟩ line =
      ⟨[], atDepth (depth + Code.braceBalance (Text.trim line)) types⟩ := by
  have hne : depth ≠ 0 := by omega
  -- blank lines and comments are passed over, which agrees with their balance
  have hstay : Code.braceBalance (Text.trim line) = 0 →
      (⟨[], some ⟨some depth, types⟩⟩ : Progress) =
        ⟨[], atDepth (depth + Code.braceBalance (Text.trim line)) types⟩ := by
    intro hzero
    rw [hzero, Int.add_zero, atDepth, if_pos (by omega), Int.toNat_natCast]
  simp only [step, hne, decide_false, Bool.false_and, if_false]
  rw [if_neg Bool.false_ne_true]
  split
  · rename_i htype
    apply hstay
    apply Code.braceBalance_comment
    exact List.IsPrefix.trans (show commentMarker <+: typeMarker by decide)
      (List.isPrefixOf_iff_prefix.mp htype)
  · split
    · rename_i hpassed
      apply hstay
      rcases (Bool.or_eq_true _ _).mp hpassed with hcomment | hempty
      · exact Code.braceBalance_comment (List.isPrefixOf_iff_prefix.mp hcomment)
      · rw [List.isEmpty_iff.mp hempty]
        rfl
    · rw [codeLine, if_neg hne]

/-! ## Entries -/

/-- The text of an entry up to and with its equals sign. -/
def entryFront (name blanks : Text) : Text := name ++ (blanks ++ ['='])

section

variable {name blanks : Text} (hn : Text.IsWord name) (hb : ∀ c ∈ blanks, isBlank c = true)

include hn hb

/-- In front of the value of an entry stands nothing but word characters, blanks and the equals
sign. -/
theorem entryFront_ne {mark : Char} (hm : isWord mark = false ∧ isBlank mark = false ∧ mark ≠ '=') :
    ∀ c ∈ entryFront name blanks, c ≠ mark := by
  intro c hc
  rcases List.mem_append.mp hc with hc | hc
  · exact ne_of_test (hn.chars c hc) hm.1
  · rcases List.mem_append.mp hc with hc | hc
    · exact ne_of_test (hb c hc) hm.2.1
    · rw [List.mem_singleton.mp hc]
      exact hm.2.2.symm

/-- Cutting and trimming the line of an entry leaves its name and the equals sign alone. -/
theorem ofLine_entry (value : Text) :
    Code.ofLine (Text.cutAt [','] (entryFront name blanks ++ value)) =
      entryFront name blanks ++
        Text.dropTrailingBlanks (Text.cutAt commentMarker (Text.cutAt [','] value)) := by
  have hcomma : ∀ c ∈ entryFront name blanks, c ≠ ',' := entryFront_ne hn hb (by decide)
  have hdash : ∀ c ∈ entryFront name blanks, c ≠ '-' := entryFront_ne hn hb (by decide)
  have hink : Text.EndsInInk (entryFront name blanks) :=
    Text.EndsInInk.append (Text.EndsInInk.append ⟨by decide, by decide⟩ _) _
  have hhead : ∀ c ∈ (entryFront name blanks).head?, isBlank c = false := hn.head_not_blank _
  rw [Text.cutAt_append hcomma, Code.ofLine, show commentMarker = '-' :: ['-'] from rfl,
    Text.cutAt_append hdash, Text.trim_append hink hhead]

theorem entry?_append (behind : Text) :
    Declaration.entry? (entryFront name blanks ++ behind) = some (name, behind) := by
  have htext : entryFront name blanks ++ behind = name ++ (blanks ++ '=' :: behind) := by
    simp [entryFront]
  have hend : ∀ c ∈ (blanks ++ '=' :: behind).head?, isWord c = false :=
    Text.head_run_append (fun c hc => isWord_eq_false_of_isBlank (hb c hc))
      (Text.head_cons (by decide) _)
  simp only [htext, Declaration.entry?, Text.word?_append hn hend, Text.skipBlanks_append hb,
    Text.skipBlanks_cons (show isBlank '=' = false by decide), Option.bind_eq_bind,
    Option.bind_some]

/-- The name of an entry is read back, whatever its value is. -/
theorem entryName?_append (value : Text) :
    entryName? (entryFront name blanks ++ value) = some name := by
  rw [entryName?, ofLine_entry hn hb, Text.search_of_eq_some (entry?_append hn hb _),
    Option.map_some]

/-- The braces of an entry are those of its value. -/
theorem braceBalance_entry {value : CodeLine} (hv : value.IsWritten) :
    Code.braceBalance (entryFront name blanks ++ value.text) = value.balance := by
  have hmarks : ∀ mark ∈ ['\'', '"', '-', '\x7b', '\x7d'],
      isWord mark = false ∧ isBlank mark = false ∧ mark ≠ '=' := by decide
  have hplain : ∀ c ∈ entryFront name blanks, Code.IsPlain c :=
    fun c hc hmem => entryFront_ne hn hb (hmarks c hmem) c hc rfl
  rw [Code.braceBalance_append hplain, Code.braceBalance_text hv]

end

/-- A line between two entries that begins with neither a hyphen nor a closing brace is read as
code. -/
theorem step_code {line : Text} {c : Char} (hc : c ∈ (Text.trim line).head?) (hdash : c ≠ '-')
    (hclose : c ≠ '\x7d') (types : List Text) :
    step ⟨some 0, types⟩ line = codeLine 0 types (Text.trim line) := by
  obtain ⟨more, hmore⟩ : ∃ more, Text.trim line = c :: more := List.head?_eq_some_iff.mp hc
  have hends : startsWithClose (c :: more) = false :=
    decide_eq_false fun heq => hclose (Option.some.inj heq)
  have htype : typeMarker.isPrefixOf (c :: more) = false :=
    Text.isPrefixOf_cons_eq_false hdash _ _
  have hcomment : commentMarker.isPrefixOf (c :: more) = false :=
    Text.isPrefixOf_cons_eq_false hdash _ _
  simp only [step, hmore, hends, htype, hcomment]
  rfl

/-- The line of a value adds the value, and opens what its balance says. -/
theorem step_valueLine {entry : EnumEntry} (h : entry.IsWritten) (types : List Text) {line : Text}
    (hl : Text.trim line = entry.valueLine) :
    step ⟨some 0, types⟩ line =
      ⟨[value entry.name types], atDepth entry.value.balance []⟩ := by
  have htext : entry.valueLine = entryFront entry.name entry.blanks ++ entry.value.text := by
    simp [EnumEntry.valueLine, entryFront]
  -- a name begins neither as a comment does nor as the end of the table
  obtain ⟨c, hc, hword⟩ := h.name.head (entry.blanks ++ '=' :: entry.value.text)
  have hmem : c ∈ (Text.trim line).head? := by
    rw [hl]
    exact hc
  have hdash : c ≠ '-' := ne_of_test hword (by decide)
  have hclose : c ≠ '\x7d' := ne_of_test hword (by decide)
  rw [step_code hmem hdash hclose, hl, htext, codeLine, if_pos rfl,
    entryName?_append h.name h.blanks, braceBalance_entry h.name h.blanks h.value]
  simp

/-- The value of an entry has the type and the description of the comment in front of it. -/
theorem value_typeLines {entry : EnumEntry} (h : entry.IsWritten) :
    value entry.name entry.typeLines = entry.field := by
  unfold EnumEntry.typeLines EnumEntry.field
  cases htype : entry.type with
  | none => rfl
  | some decl =>
      obtain ⟨hexpr, hdesc⟩ := h.type decl htype
      have hread := Tag.read?_typeLine hexpr fun text ht =>
        ⟨(hdesc text ht).1.endsLine, (hdesc text ht).2⟩
      have hblock : (Block.ofLines [Tag.typeLine decl.type decl.description]).typeDecl =
          some decl := by
        rw [Block.ofLines, List.foldl_cons, List.foldl_nil, Block.addLine_of_read? hread]
        rfl
      simp only [value, hblock]
      rfl

theorem nonneg_of_closes {depth : Int} {more : List CodeLine} (h : CodeLine.Closes depth more) :
    0 ≤ depth := by
  cases more with
  | nil =>
      have hzero : depth = 0 := h
      omega
  | cons line rest =>
      have hpos : 0 < depth := h.1
      omega

theorem atDepth_of_nonneg {depth : Int} (h : 0 ≤ depth) (types : List Text) :
    atDepth depth types = some ⟨some depth.toNat, types⟩ := if_pos h

/-- The lines on which an entry goes on lead back to depth zero. The depth in front of them is
the invariant of the induction. -/
theorem runs_more {more : List CodeLine} (hw : ∀ line ∈ more, line.IsWritten) {depth : Int}
    (hc : CodeLine.Closes depth more) {lines : List Text}
    (hl : lines.map Text.trim = more.map CodeLine.text) (types : List Text) :
    Runs ⟨some depth.toNat, types⟩ lines [] ⟨some 0, types⟩ := by
  induction more generalizing depth lines with
  | nil =>
      obtain rfl : depth = 0 := hc
      obtain rfl : lines = [] := List.map_eq_nil_iff.mp hl
      exact .nil
  | cons line rest ih =>
      obtain ⟨hpos, hrest⟩ := hc
      cases lines with
      | nil => cases hl
      | cons first lines =>
          obtain ⟨hfirst, hlines⟩ := List.cons.inj hl
          -- an open brace is in front of the line, so the line cannot end the table
          have hstep : step ⟨some depth.toNat, types⟩ first =
              ⟨[], some ⟨some (depth + line.balance).toNat, types⟩⟩ := by
            rw [step_inner (by omega), hfirst, Code.braceBalance_text (hw line (by simp)),
              Int.toNat_of_nonneg (by omega), atDepth_of_nonneg (nonneg_of_closes hrest)]
          exact .cons hstep (ih (fun l hm => hw l (List.mem_cons_of_mem _ hm)) hrest hlines)

/-- The type comment of an entry waits for its value. -/
theorem runs_typeLines {entry : EnumEntry} {lines : List Text}
    (hl : lines.map Text.trim = entry.typeLines) :
    Runs between lines [] ⟨some 0, entry.typeLines⟩ := by
  unfold EnumEntry.typeLines at hl ⊢
  cases htype : entry.type with
  | none =>
      rw [htype] at hl
      obtain rfl : lines = [] := List.map_eq_nil_iff.mp hl
      exact .nil
  | some decl =>
      rw [htype] at hl
      obtain ⟨line, rfl, hline⟩ := List.map_eq_singleton_iff.mp hl
      exact .one (step_typeLine hline)

/-- An entry adds its value and leads back to the place between two entries. -/
theorem runs_entry {entry : EnumEntry} (h : entry.IsWritten) {lines : List Text}
    (hl : lines.map Text.trim = entry.lines) : Runs between lines [entry.field] between := by
  obtain ⟨front, behind, rfl, hfront, hbehind⟩ := List.map_eq_append_iff.mp hl
  have htypes : Runs between front [] ⟨some 0, entry.typeLines⟩ := runs_typeLines hfront
  cases behind with
  | nil => cases hbehind
  | cons line more =>
      obtain ⟨hline, hmore⟩ := List.cons.inj hbehind
      have hstep : step ⟨some 0, entry.typeLines⟩ line =
          ⟨[entry.field], some ⟨some entry.value.balance.toNat, []⟩⟩ := by
        rw [step_valueLine h _ hline, value_typeLines h,
          atDepth_of_nonneg (nonneg_of_closes h.closes)]
      exact htypes.append (.cons hstep (runs_more h.more h.closes hmore []))

/-- An item adds its value, if it has one, and leads back to the place between two entries. -/
theorem runs_item {item : EnumItem} (h : item.IsWritten) {lines : List Text}
    (hl : lines.map Text.trim = item.lines) :
    Runs between lines item.field?.toList between := by
  cases item with
  | blank =>
      obtain ⟨line, rfl, hline⟩ := List.map_eq_singleton_iff.mp hl
      exact .one (step_blank between hline)
  | comment text =>
      obtain ⟨line, rfl, hline⟩ := List.map_eq_singleton_iff.mp hl
      refine .one (step_comment between ?_ ?_ (by simp [between]))
      · rw [hline]
        exact List.prefix_append _ _
      · rw [hline]
        exact h
  | entry written => exact runs_entry h hl

/-- The items of a table add their values in order. -/
theorem runs_items {items : List EnumItem} (h : ∀ item ∈ items, item.IsWritten)
    {lines : List Text} (hl : lines.map Text.trim = items.flatMap EnumItem.lines) :
    Runs between lines (items.filterMap EnumItem.field?) between := by
  induction items generalizing lines with
  | nil =>
      obtain rfl : lines = [] := List.map_eq_nil_iff.mp hl
      exact .nil
  | cons item rest ih =>
      obtain ⟨front, behind, rfl, hfront, hbehind⟩ := List.map_eq_append_iff.mp hl
      have hitem := runs_item (h item (by simp)) hfront
      have hrest := ih (fun i hi => h i (List.mem_cons_of_mem _ hi)) hbehind
      have hvalues : (item :: rest).filterMap EnumItem.field? =
          item.field?.toList ++ rest.filterMap EnumItem.field? := by
        rw [List.filterMap_cons]
        cases item.field? <;> rfl
      rw [hvalues]
      exact hitem.append hrest

/-! ## The two ends of a table -/

/-- A line that ends in its only brace opens the table. -/
theorem openingLine?_append {front : Text} (h : '\x7b' ∉ front) :
    openingLine? [] (front ++ ['\x7b']) = some ⟨[], some between⟩ := by
  rw [openingLine?, Code.afterBrace?, Text.after?_append h []]
  rfl

/-- The opening of a table leads to its first item. -/
theorem runs_opening {opening : EnumOpening} (h : opening.IsWritten) {lines : List Text}
    (hl : lines.map Text.trim = opening.lines) :
    ∃ table, start opening.first = ⟨[], some table⟩ ∧ Runs table lines [] between := by
  cases opening with
  | sameLine front =>
      obtain rfl : lines = [] := List.map_eq_nil_iff.mp hl
      refine ⟨between, ?_, .nil⟩
      rw [EnumOpening.first, start, openingLine?_append h, Option.getD_some]
  | nextLine first =>
      obtain ⟨line, rfl, hline⟩ := List.map_eq_singleton_iff.mp hl
      have hnone : openingLine? [] first = none := by
        rw [openingLine?, Code.afterBrace?, Text.after?_eq_none h]
        rfl
      refine ⟨{}, ?_, .one ?_⟩
      · rw [EnumOpening.first, start, hnone, Option.getD_none]
      · have hbrace := openingLine?_append (show '\x7b' ∉ ([] : Text) by simp)
        rw [List.nil_append] at hbrace
        simp only [step, hline, hbrace]

/-- A line that begins with a closing brace ends the table between two entries. -/
theorem step_close {line : Text} (h : (Text.trim line).head? = some '\x7d') :
    step between line = ⟨[], none⟩ := by
  have hclose : startsWithClose (Text.trim line) = true := decide_eq_true h
  simp only [step, between, hclose]
  rfl

end EnumTable

/-! ## Whole tables -/

/-- The table of an enum without the line that closes it. -/
structure EnumBody where
  opening : EnumOpening
  items : List EnumItem

namespace EnumBody

/-- What makes a table one that can be written. -/
structure IsWritten (body : EnumBody) : Prop where
  opening : body.opening.IsWritten
  items : ∀ item ∈ body.items, item.IsWritten

/-- The lines behind the first line of code. -/
def lines (body : EnumBody) : List Text :=
  body.opening.lines ++ body.items.flatMap EnumItem.lines

/-- The values that the table documents, one for each entry. -/
def fields (body : EnumBody) : List FieldDoc := body.items.filterMap EnumItem.field?

/-- The lines of a table lead to the place in front of its closing line and add its values. -/
theorem runs_lines {body : EnumBody} (h : body.IsWritten) {lines : List Text}
    (hl : lines.map Text.trim = body.lines) :
    ∃ table, EnumTable.start body.opening.first = ⟨[], some table⟩ ∧
      EnumTable.Runs table lines body.fields EnumTable.between := by
  obtain ⟨front, behind, rfl, hfront, hbehind⟩ := List.map_eq_append_iff.mp hl
  obtain ⟨table, hstart, hopening⟩ := EnumTable.runs_opening h.opening hfront
  exact ⟨table, hstart, hopening.append (EnumTable.runs_items h.items hbehind)⟩

/-- A written table is read whole, up to and with the line that closes it. -/
theorem read_lines {body : EnumBody} (h : body.IsWritten) {lines : List Text}
    (hl : lines.map Text.trim = body.lines) {close : Text}
    (hc : (Text.trim close).head? = some '\x7d') (rest : List Text) :
    EnumTable.read body.opening.first (lines ++ close :: rest) = (body.fields, rest) := by
  obtain ⟨table, hstart, hruns⟩ := runs_lines h hl
  have hend : EnumTable.readFrom EnumTable.between (close :: rest) = ([], rest) := by
    rw [EnumTable.readFrom, EnumTable.step_close hc]
  simp only [EnumTable.read, hstart, EnumTable.readFrom_append hruns, hend, List.nil_append,
    List.append_nil]

end EnumBody

end LuaReference
