import LuaReference.Proofs.Tag.Written
import LuaReference.Tag.Block

set_option autoImplicit false

/-! # Written comment blocks

The comment of a function is written as lines of text, then the lines of its parameters, then
the lines of its returned values. `ofLines_written` reads the three parts back from the lines,
each part by an induction on its lines that leaves the rest of the block alone.
-/

namespace LuaReference

/-! ## Written entries -/

/-- What makes the entry of a parameter one that can be written on a line. -/
structure ParamEntry.IsWritten (entry : ParamEntry) : Prop where
  name : Tag.IsParamName entry.name
  type : TypeExpr.IsTypeExpr entry.type
  type_oneLine : Text.OneLine entry.type
  description : ∀ text ∈ entry.description, IsDescription text ∧ text.head? ≠ some ':'

/-- What makes the entry of a returned value one that can be written on a line. -/
structure ReturnEntry.IsWritten (entry : ReturnEntry) : Prop where
  type : TypeExpr.IsTypeExpr entry.type
  type_oneLine : Text.OneLine entry.type
  name : ∀ word ∈ entry.name, Text.IsWord word
  description : ∀ text ∈ entry.description, IsDescription text
  description_named : entry.name = none → entry.description = none

/-- The line of a parameter entry. -/
def ParamEntry.line (entry : ParamEntry) : Text :=
  Tag.paramLine entry.name entry.type entry.description

/-- The line of an entry on a returned value. -/
def ReturnEntry.line (entry : ReturnEntry) : Text :=
  Tag.resultLine entry.type entry.name entry.description

theorem ParamEntry.IsWritten.isDocLine {entry : ParamEntry} (h : entry.IsWritten) :
    Tag.IsDocLine entry.line :=
  Tag.isDocLine_paramLine h.name h.type h.type_oneLine fun text ht => (h.description text ht).1

theorem ReturnEntry.IsWritten.isDocLine {entry : ReturnEntry} (h : entry.IsWritten) :
    Tag.IsDocLine entry.line :=
  Tag.isDocLine_resultLine h.type h.type_oneLine h.name h.description

/-! ## Descriptions -/

/-- A trimmed text is kept as a description, unless it is empty. -/
theorem cleanDescription_some {text : Text} (hne : text ≠ []) (htrim : Text.trim text = text) :
    cleanDescription (some text) = some text := by
  rw [cleanDescription, htrim]
  cases text with
  | nil => exact absurd rfl hne
  | cons c rest => rfl

theorem cleanDescription_eq_self {description : Option Text}
    (h : ∀ text ∈ description, IsDescription text) :
    cleanDescription description = description := by
  cases description with
  | none => rfl
  | some text => exact cleanDescription_some (h text rfl).ne_nil (h text rfl).trimmed

/-- A description of several lines; no lines make no description. -/
def describeLines : List Text → Option Text
  | [] => none
  | lines => some (Text.join ['\n'] lines)

theorem join_endsInInk {lines : List Text} (hne : lines ≠ [])
    (h : ∀ line ∈ lines, IsDescription line) : Text.EndsInInk (Text.join ['\n'] lines) := by
  induction lines with
  | nil => exact absurd rfl hne
  | cons line rest ih =>
      cases rest with
      | nil => exact (h line (by simp)).endsInInk
      | cons next rest =>
          exact (ih (by simp) fun l hl => h l (List.mem_cons_of_mem _ hl)).append _

theorem join_head_not_blank {lines : List Text} (h : ∀ line ∈ lines, IsDescription line) :
    ∀ c ∈ (Text.join ['\n'] lines).head?, isBlank c = false := by
  match lines with
  | [] => simp [Text.join]
  | [line] => exact (h line (by simp)).head_not_blank
  | line :: next :: rest =>
      have hline := h line (by simp)
      rw [Text.join, List.append_assoc]
      · exact Text.head_append hline.ne_nil hline.head_not_blank _
      · simp

/-- A description of several lines is kept as it is. -/
theorem cleanDescription_describeLines {lines : List Text}
    (h : ∀ line ∈ lines, IsDescription line) :
    cleanDescription (describeLines lines) = describeLines lines := by
  cases lines with
  | nil => rfl
  | cons line rest =>
      have hink := join_endsInInk (by simp) h
      exact cleanDescription_some hink.ne_nil (hink.trim_eq_self (join_head_not_blank h))

/-- Continuing a description line by line joins the lines. -/
theorem foldl_continueDescription {text : Text} (hne : text ≠ []) (lines : List Text) :
    lines.foldl (fun d line => some (continueDescription d line)) (some text) =
      some (Text.join ['\n'] (text :: lines)) := by
  induction lines generalizing text with
  | nil => rfl
  | cons line rest ih =>
      have hstep : continueDescription (some text) line = text ++ '\n' :: line := by
        cases text with
        | nil => exact absurd rfl hne
        | cons c text => rfl
      -- what is joined so far counts as one line for the lines to come
      have hassoc : Text.join ['\n'] ((text ++ '\n' :: line) :: rest) =
          Text.join ['\n'] (text :: line :: rest) := by
        cases rest with
        | nil => simp [Text.join]
        | cons next rest => simp [Text.join]
      rw [List.foldl_cons, hstep, ih (by simp), hassoc]

theorem foldl_continueDescription_none {lines : List Text} (h : ∀ line ∈ lines, line ≠ []) :
    lines.foldl (fun d line => some (continueDescription d line)) none = describeLines lines := by
  cases lines with
  | nil => rfl
  | cons line rest => exact foldl_continueDescription (h line (by simp)) rest

namespace Block

/-! ## One line -/

theorem addLine_of_tag {line : Text} {tag : Tag} (h : Tag.ofLine? line = some tag)
    (state : Block × Target) : addLine state line = state.1.addTag tag := by
  rw [addLine, h]

theorem addLine_of_read? {line : Text} {tag : Tag} {rest : Text}
    (h : Tag.read? line = some (tag, rest)) (state : Block × Target) :
    addLine state line = state.1.addTag tag := by
  have htag : Tag.ofLine? line = some tag := by rw [Tag.ofLine?, h, Option.map_some]
  exact addLine_of_tag htag state

/-- A line of text goes to the general description while nothing else stands open. -/
theorem addLine_textLine {text : Text} (hd : IsDescription text) (hk : Tag.NoKeyword text)
    (block : Block) :
    addLine (block, .general) (Tag.textLine text) = (block.appendGeneral text, .general) := by
  rw [addLine, Tag.ofLine?_textLine hd hk, Tag.commentText_textLine hd]
  cases text with
  | nil => exact absurd rfl hd.ne_nil
  | cons c text => rfl

/-! ## The three parts -/

theorem foldl_textLines {lines : List Text}
    (h : ∀ line ∈ lines, IsDescription line ∧ Tag.NoKeyword line) (block : Block) :
    (lines.map Tag.textLine).foldl addLine (block, .general) =
      ({ block with
          description := lines.foldl (fun d line => some (continueDescription d line))
            block.description }, .general) := by
  induction lines generalizing block with
  | nil => rfl
  | cons line rest ih =>
      obtain ⟨hd, hk⟩ := h line (by simp)
      rw [List.map_cons, List.foldl_cons, addLine_textLine hd hk,
        ih (fun l hl => h l (List.mem_cons_of_mem _ hl))]
      rfl

/-- The lines of parameters add their entries, whatever stands open in front of them. -/
theorem foldl_paramLines {params : List ParamEntry} (h : ∀ entry ∈ params, entry.IsWritten)
    (state : Block × Target) :
    ((params.map ParamEntry.line).foldl addLine state).1 =
      { state.1 with params := state.1.params ++ params } := by
  induction params generalizing state with
  | nil => simp
  | cons entry rest ih =>
      have hw := h entry (by simp)
      have hread : Tag.read? entry.line = _ := Tag.read?_paramLine hw.name hw.type
        fun text ht => ⟨(hw.description text ht).1.endsLine, (hw.description text ht).2⟩
      rw [List.map_cons, List.foldl_cons, addLine_of_read? hread,
        ih (fun e he => h e (List.mem_cons_of_mem _ he))]
      simp [addTag]

theorem foldl_resultLines {returns : List ReturnEntry} (h : ∀ entry ∈ returns, entry.IsWritten)
    (state : Block × Target) :
    ((returns.map ReturnEntry.line).foldl addLine state).1 =
      { state.1 with returns := state.1.returns ++ returns } := by
  induction returns generalizing state with
  | nil => simp
  | cons entry rest ih =>
      have hw := h entry (by simp)
      have hread : Tag.read? entry.line = _ :=
        Tag.read?_resultLine hw.type hw.name (fun text ht => (hw.description text ht).endsLine)
          hw.description_named
      rw [List.map_cons, List.foldl_cons, addLine_of_read? hread,
        ih (fun e he => h e (List.mem_cons_of_mem _ he))]
      simp [addTag]

/-- **A written comment is read back**: its text, its parameters and its returned values. -/
theorem ofLines_written {lines : List Text} {params : List ParamEntry}
    {returns : List ReturnEntry} (hl : ∀ line ∈ lines, IsDescription line ∧ Tag.NoKeyword line)
    (hp : ∀ entry ∈ params, entry.IsWritten) (hr : ∀ entry ∈ returns, entry.IsWritten) :
    ofLines (lines.map Tag.textLine ++ params.map ParamEntry.line ++
        returns.map ReturnEntry.line) =
      { description := describeLines lines, params := params, returns := returns } := by
  rw [ofLines, List.foldl_append, foldl_resultLines hr, List.foldl_append, foldl_paramLines hp,
    foldl_textLines hl, foldl_continueDescription_none (fun line h => (hl line h).1.ne_nil)]
  rfl

end Block

end LuaReference
