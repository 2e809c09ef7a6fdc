import LuaReference.Proofs.Tag.BlockParts
import LuaReference.Reader.Basic
import Mathlib.Data.List.Find
import Mathlib.Data.List.Nodup

set_option autoImplicit false

/-! # The order of parameters in a comment

An entry on a parameter may be continued by plain text, so it is a run of lines that is moved as a
whole, a segment. A segment adds one entry behind all others, whatever stands open in front of it
(`foldl_addLine_segment`). Lines behind the segments that do not begin with plain text leave the
entries in front of them alone, for no parameter stands open there but their own
(`foldl_addLine_withParams`). So segments in another order give a block with the same entries in
another order (`ofLines_segments`), and entries of distinct names are found in whatever order they
stand (`find?_perm`).
-/

namespace LuaReference

/-- An entry continued by lines of plain text. -/
def ParamEntry.addLines (entry : ParamEntry) (more : List Text) : ParamEntry :=
  more.foldl (fun entry text => entry.addLine (Tag.commentText text)) entry

theorem ParamEntry.name_addLines (entry : ParamEntry) (more : List Text) :
    (entry.addLines more).name = entry.name := by
  induction more generalizing entry with
  | nil => rfl
  | cons text more ih => exact ih (entry.addLine (Tag.commentText text))

/-- A line with the tag of a parameter, and the plain text behind it. -/
structure ParamSegment where
  line : Text
  name : Text
  type : Text
  description : Option Text
  tag_eq : Tag.ofLine? line = some (.param name type description)
  more : List Text
  isPlain : ∀ text ∈ more, Block.IsPlain text

namespace ParamSegment

/-- The lines of a segment. -/
def lines (segment : ParamSegment) : List Text := segment.line :: segment.more

/-- The entry that a segment makes. -/
def entry (segment : ParamSegment) : ParamEntry :=
  ParamEntry.addLines ⟨segment.name, segment.type, segment.description⟩ segment.more

theorem name_entry (segment : ParamSegment) : segment.entry.name = segment.name :=
  ParamEntry.name_addLines _ segment.more

end ParamSegment

namespace Block

/-! ## Segments -/

/-- Plain text behind an entry continues it. -/
theorem foldl_addLine_plain {more : List Text} (h : ∀ text ∈ more, IsPlain text) (block : Block)
    (front : List ParamEntry) (last : ParamEntry) :
    more.foldl addLine ({ block with params := front ++ [last] }, .param) =
      ({ block with params := front ++ [last.addLines more] }, .param) := by
  induction more generalizing last with
  | nil => rfl
  | cons text more ih =>
      have htext : IsPlain text := h text List.mem_cons_self
      rw [List.foldl_cons, addLine_of_plain htext, append, mapLast_concat]
      exact ih (fun other hother => h other (List.mem_cons_of_mem _ hother)) _

/-- A segment adds its entry behind all others, whatever stands open in front of it. -/
theorem foldl_addLine_segment (segment : ParamSegment) (state : Block × Target) :
    segment.lines.foldl addLine state =
      ({ state.1 with params := state.1.params ++ [segment.entry] }, .param) := by
  rw [ParamSegment.lines, List.foldl_cons, addLine_of_tag segment.tag_eq]
  exact foldl_addLine_plain segment.isPlain state.1 state.1.params _

theorem foldl_addLine_segments (segments : List ParamSegment) (state : Block × Target) :
    ((segments.flatMap ParamSegment.lines).foldl addLine state).1 =
      { state.1 with params := state.1.params ++ segments.map ParamSegment.entry } := by
  induction segments generalizing state with
  | nil => simp
  | cons segment segments ih =>
      rw [List.flatMap_cons, List.foldl_append, foldl_addLine_segment, ih]
      simp

/-! ## Behind the segments -/

/-- A state of reading with further entries on parameters in front of those of its block. -/
def withParams (front : List ParamEntry) (state : Block × Target) : Block × Target :=
  ({ state.1 with params := front ++ state.1.params }, state.2)

/-- If a parameter stands open it is one of the block. -/
def OpenInside (state : Block × Target) : Prop := state.2 = .param → state.1.params ≠ []

section Frame

variable {state : Block × Target} (h : OpenInside state) (line : Text)

theorem openInside_addTag (block : Block) (tag : Tag) : OpenInside (block.addTag tag) := by
  rw [addTag_eq]
  intro htarget
  cases tag with
  | param => simp
  | _ => cases htarget

include h

theorem openInside_append (text : Text) :
    OpenInside (state.1.append state.2 text, state.2) := by
  obtain ⟨block, target⟩ := state
  cases target with
  | field => intro htarget; cases htarget
  | general => intro htarget; cases htarget
  | param =>
      intro _
      exact mapLast_ne_nil _ (h rfl)

theorem openInside_addLine : OpenInside (addLine state line) := by
  rcases line_cases line with ⟨tag, htag⟩ | hblank | hplain
  · rw [addLine_of_tag htag]
    exact openInside_addTag state.1 tag
  · rw [addLine_of_blank hblank]
    intro htarget
    cases htarget
  · rw [addLine_of_plain hplain]
    exact openInside_append h _

/-- Entries in front are not touched by one more line. -/
theorem addLine_withParams (front : List ParamEntry) :
    addLine (withParams front state) line = withParams front (addLine state line) := by
  rcases line_cases line with ⟨tag, htag⟩ | hblank | hplain
  · rw [addLine_of_tag htag, addLine_of_tag htag]
    simp only [withParams, addTag_eq, List.append_assoc]
  · rw [addLine_of_blank hblank, addLine_of_blank hblank]
    rfl
  · rw [addLine_of_plain hplain, addLine_of_plain hplain]
    obtain ⟨block, target⟩ := state
    cases target with
    | field => rfl
    | general => rfl
    | param =>
        -- the last entry is one of the block, and not the last of those in front
        have hparams : block.params ≠ [] := h rfl
        simp only [withParams, append, mapLast_append _ front hparams]

/-- Entries in front are not touched by any lines. -/
theorem foldl_addLine_withParams (front : List ParamEntry) (lines : List Text) :
    lines.foldl addLine (withParams front state) =
      withParams front (lines.foldl addLine state) := by
  induction lines generalizing state with
  | nil => rfl
  | cons line lines ih =>
      rw [List.foldl_cons, List.foldl_cons, addLine_withParams h line front,
        ih (openInside_addLine h line)]

end Frame

/-- Lines that do not begin with plain text do not see what stands open in front of them. -/
theorem foldl_addLine_of_not_plain {lines : List Text} (h : ∀ line ∈ lines.head?, ¬ IsPlain line)
    (block : Block) (target : Target) :
    (lines.foldl addLine (block, target)).1 = (lines.foldl addLine (block, .general)).1 := by
  cases lines with
  | nil => rfl
  | cons line lines =>
      have hline : ¬ IsPlain line := h line rfl
      have hstep : addLine (block, target) line = addLine (block, .general) line := by
        rcases line_cases line with ⟨tag, htag⟩ | hblank | hplain
        · rw [addLine_of_tag htag, addLine_of_tag htag]
        · rw [addLine_of_blank hblank, addLine_of_blank hblank]
        · exact absurd hplain hline
      rw [List.foldl_cons, List.foldl_cons, hstep]

/-! ## The whole block -/

/-- The state in which a block has no entries on parameters yet and nothing stands open. -/
def cleared (block : Block) : Block × Target := ({ block with params := [] }, .general)

theorem openInside_cleared (block : Block) : OpenInside (cleared block) := by
  intro htarget
  cases htarget

theorem withParams_cleared (front : List ParamEntry) (block : Block) :
    withParams front (cleared block) = ({ block with params := front }, .general) := by
  rw [withParams, cleared, List.append_nil]

/-- What the lines around the segments of a block say, the entries in front of them left out. -/
def around (before after : List Text) : Block :=
  (after.foldl addLine (cleared (ofLines before))).1

/-- Segments add their entries between those of the lines around them, and nothing else. -/
theorem ofLines_segments (before : List Text) (segments : List ParamSegment) {after : List Text}
    (hafter : ∀ line ∈ after.head?, ¬ IsPlain line) :
    ofLines (before ++ segments.flatMap ParamSegment.lines ++ after) =
      { around before after with
        params := (ofLines before).params ++ segments.map ParamSegment.entry ++
          (around before after).params } := by
  have hsegments : ofLines (before ++ segments.flatMap ParamSegment.lines) =
      { ofLines before with
        params := (ofLines before).params ++ segments.map ParamSegment.entry } := by
    rw [ofLines, List.foldl_append, foldl_addLine_segments]
    rfl
  calc ofLines (before ++ segments.flatMap ParamSegment.lines ++ after)
      = (after.foldl addLine ((before ++ segments.flatMap ParamSegment.lines).foldl addLine
          ({}, .general))).1 := by rw [ofLines, List.foldl_append]
    _ = (after.foldl addLine
          (ofLines (before ++ segments.flatMap ParamSegment.lines), .general)).1 :=
        foldl_addLine_of_not_plain hafter _ _
    _ = (after.foldl addLine
          (withParams ((ofLines before).params ++ segments.map ParamSegment.entry)
            (cleared (ofLines before)))).1 := by rw [hsegments, withParams_cleared]
    _ = (withParams ((ofLines before).params ++ segments.map ParamSegment.entry)
          (after.foldl addLine (cleared (ofLines before)))).1 := by
        rw [foldl_addLine_withParams (openInside_cleared _)]
    _ = _ := rfl

end Block

/-! ## Lookup -/

/-- Among parameters of distinct names each is found, in whatever order they stand. -/
theorem find?_perm {entries permuted : List ParamEntry} (h : entries.Perm permuted)
    (hnames : (entries.map ParamEntry.name).Nodup) (name : Text) :
    entries.find? (·.name = name) = permuted.find? (·.name = name) := by
  refine List.find?_eq_find?_of_perm h ?_
  rintro first ⟨hfirst, hname⟩ second ⟨hsecond, hname'⟩
  have heq : first.name = second.name :=
    (of_decide_eq_true hname).trans (of_decide_eq_true hname').symm
  exact List.inj_on_of_nodup_map hnames hfirst hsecond heq

namespace Reader

section Congr

variable {block : Block} {params permuted : List ParamEntry}
  (h : ∀ name, params.find? (·.name = name) = permuted.find? (·.name = name))

include h

/-- Of the entries on parameters only those that are found by name count. -/
theorem functionDoc_congr (header : FunctionHeader) (returnsValue : Bool) :
    functionDoc { block with params } header returnsValue =
      functionDoc { block with params := permuted } header returnsValue := by
  have hdoc : paramDoc { block with params } = paramDoc { block with params := permuted } := by
    funext name
    show ((params.find? (·.name = name)).getD _).finish = _
    rw [h]
    rfl
  rw [functionDoc, hdoc]
  rfl

/-- The entries on parameters are used for functions only. -/
theorem codeLine_congr {pending other : List Text}
    (hpending : Block.ofLines pending = { block with params })
    (hother : Block.ofLines other = { block with params := permuted }) (registry : Registry)
    (line : Text) (rest : List Text) :
    codeLine registry pending line rest = codeLine registry other line rest := by
  have hfunction : commitFunction registry { block with params } line rest =
      commitFunction registry { block with params := permuted } line rest := by
    simp only [commitFunction, functionDoc_congr h]
  rw [codeLine, codeLine, commitBlock, commitBlock, hpending, hother, hfunction]
  rfl

end Congr

/-- **The order in which parameters are documented does not matter.** Entries of distinct names may
be listed in any order, each with the text that continues it. Any lines may stand in front of them,
and behind them any that do not begin with plain text, which would continue the last entry. -/
theorem codeLine_perm_params {segments permuted : List ParamSegment}
    (h : segments.Perm permuted) (hnames : (segments.map ParamSegment.name).Nodup)
    (before : List Text) {after : List Text}
    (hafter : ∀ line ∈ after.head?, ¬ Block.IsPlain line) (registry : Registry) (line : Text)
    (rest : List Text) :
    codeLine registry (before ++ segments.flatMap ParamSegment.lines ++ after) line rest =
      codeLine registry (before ++ permuted.flatMap ParamSegment.lines ++ after) line rest := by
  have hentries : (segments.map ParamSegment.entry).Perm (permuted.map ParamSegment.entry) :=
    h.map ParamSegment.entry
  have hentryNames : ((segments.map ParamSegment.entry).map ParamEntry.name).Nodup := by
    have hname : ParamEntry.name ∘ ParamSegment.entry = ParamSegment.name :=
      funext ParamSegment.name_entry
    rwa [List.map_map, hname]
  have hblock := Block.ofLines_segments before segments hafter
  have hother := Block.ofLines_segments before permuted hafter
  refine codeLine_congr (fun name => ?_) hblock hother registry line rest
  rw [List.find?_append, List.find?_append, List.find?_append, List.find?_append,
    find?_perm hentries hentryNames]

/-- An entry that is continued on the next line. -/
def acrossSegment : ParamSegment where
  line := "---@param across number".toList
  name := "across".toList
  type := "number".toList
  description := none
  tag_eq := by decide +kernel
  more := ["--- in pixels".toList]
  isPlain := by decide +kernel

/-- An entry on one line. -/
def downSegment : ParamSegment where
  line := "---@param down number? how deep".toList
  name := "down".toList
  type := "number?".toList
  description := some "how deep".toList
  tag_eq := by decide +kernel
  more := []
  isPlain := by decide +kernel

/-- Two entries exchanged, with text in front of them and text behind a blank comment line. -/
theorem codeLine_shiftComment :
    [acrossSegment, downSegment].Perm [downSegment, acrossSegment] ∧
      ([acrossSegment, downSegment].map ParamSegment.name).Nodup ∧
      codeLine {} (["--- Shifts it".toList] ++
          [acrossSegment, downSegment].flatMap ParamSegment.lines ++
          ["---".toList, "--- in place".toList])
        "function shift(down, across)".toList [] =
      codeLine {} (["--- Shifts it".toList] ++
          [downSegment, acrossSegment].flatMap ParamSegment.lines ++
          ["---".toList, "--- in place".toList])
        "function shift(down, across)".toList [] := by
  have hperm : [acrossSegment, downSegment].Perm [downSegment, acrossSegment] :=
    List.Perm.swap downSegment acrossSegment []
  have hnames : ([acrossSegment, downSegment].map ParamSegment.name).Nodup := by decide +kernel
  exact ⟨hperm, hnames,
    codeLine_perm_params hperm hnames ["--- Shifts it".toList] (by decide +kernel) {} _ []⟩

end Reader

end LuaReference
