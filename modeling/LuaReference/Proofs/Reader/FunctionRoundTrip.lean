import LuaReference.Proofs.Source.PathReading
import LuaReference.Proofs.Tag.WrittenBlock
import LuaReference.Reader.Basic

set_option autoImplicit false

/-! # Round trip of a documented function

A documented function is written as a source: the lines of its description, a line for each
parameter and each returned value, its header and the line `end`. Reading that source gives the
function back and nothing else (`parse_functionSource`).

The comment lines gather in the pending block (`run_docLines`), whose content is known from
`Block.ofLines_written`. The header then makes a function of the block, and what is left to show
is that finishing the written entries undoes writing them (`ParamDoc.finish_entry`,
`ReturnDoc.finish_entry`).
-/

namespace LuaReference

/-! ## Entries of finished documentation -/

/-- A type that can be written on a line with a mark behind it. -/
structure IsPlainType (type : Text) : Prop where
  isTypeExpr : TypeExpr.IsTypeExpr type
  oneLine : Text.OneLine type
  unmarked : type.getLast? ≠ some '?'

/-- What makes a documented parameter one that can be written. -/
structure ParamDoc.IsWritable (param : ParamDoc) : Prop where
  name : Tag.IsParamName param.name
  type : IsPlainType param.type
  description : ∀ text ∈ param.description, IsDescription text ∧ text.head? ≠ some ':'

/-- What makes a documented returned value one that can be written. -/
structure ReturnDoc.IsWritable (result : ReturnDoc) : Prop where
  type : IsPlainType result.type
  name : result.name ≠ [] → Text.IsWord result.name
  description : ∀ text ∈ result.description, IsDescription text
  description_named : result.name = [] → result.description = none

/-- The entry that says what is documented about a parameter. -/
def ParamDoc.entry (param : ParamDoc) : ParamEntry :=
  ⟨param.name, if param.optional then param.type ++ ['?'] else param.type, param.description⟩

/-- The entry that says what is documented about a returned value. -/
def ReturnDoc.entry (result : ReturnDoc) : ReturnEntry :=
  ⟨result.type, if result.name = [] then none else some result.name, result.description⟩

theorem ParamDoc.IsWritable.entry {param : ParamDoc} (h : param.IsWritable) :
    param.entry.IsWritten := by
  refine ⟨h.name, ?_, ?_, h.description⟩
  · unfold ParamDoc.entry
    split
    · exact h.type.isTypeExpr.append_question h.type.unmarked
    · exact h.type.isTypeExpr
  · unfold ParamDoc.entry
    split
    · exact h.type.oneLine.append (by decide)
    · exact h.type.oneLine

theorem ReturnDoc.IsWritable.entry {result : ReturnDoc} (h : result.IsWritable) :
    result.entry.IsWritten where
  type := h.type.isTypeExpr
  type_oneLine := h.type.oneLine
  name := by
    intro word hw
    by_cases hn : result.name = []
    · simp [ReturnDoc.entry, hn] at hw
    · obtain rfl : result.name = word := by simpa [ReturnDoc.entry, hn] using hw
      exact h.name hn
  description := h.description
  description_named := by
    intro hn
    by_cases hname : result.name = []
    · exact h.description_named hname
    · simp [ReturnDoc.entry, hname] at hn

/-- Finishing the entry of a parameter gives the parameter back. -/
theorem ParamDoc.finish_entry {param : ParamDoc} (h : param.IsWritable) :
    param.entry.finish = param := by
  have hclean : cleanDescription param.description = param.description :=
    cleanDescription_eq_self fun text ht => (h.description text ht).1
  obtain ⟨name, type, isOptional, description⟩ := param
  cases isOptional with
  | false =>
      have hsplit : splitOptional type = (type, false) := if_neg h.type.unmarked
      simp [ParamDoc.entry, ParamEntry.finish, hsplit, hclean]
  | true =>
      have hsplit : splitOptional (type ++ ['?']) = (type, true) := by
        rw [splitOptional, if_pos List.getLast?_concat, List.dropLast_concat]
      simp [ParamDoc.entry, ParamEntry.finish, hsplit, hclean]

/-- Finishing the entry of a returned value gives the value back. -/
theorem ReturnDoc.finish_entry {result : ReturnDoc} (h : result.IsWritable) :
    result.entry.finish = result := by
  have hclean : cleanDescription result.description = result.description :=
    cleanDescription_eq_self h.description
  have hsplit : splitOptional result.type = (result.type, false) := if_neg h.type.unmarked
  obtain ⟨type, name, description⟩ := result
  cases name with
  | nil => simp [ReturnDoc.entry, ReturnEntry.finish, hsplit, hclean]
  | cons c name => simp [ReturnDoc.entry, ReturnEntry.finish, hsplit, hclean]

/-! ## Functions as sources -/

/-- A documented function with the owner it is written with. -/
structure FunctionSource where
  owner : Option Owner
  name : Text
  /-- The lines of the description. -/
  description : List Text
  params : List ParamDoc
  returns : List ReturnDoc

/-- What makes a documented function one that can be written. -/
structure FunctionSource.IsWritable (source : FunctionSource) : Prop where
  owner : ∀ owner ∈ source.owner, IsPath owner.path
  name : Text.IsWord source.name
  description : ∀ line ∈ source.description, IsDescription line ∧ Tag.NoKeyword line
  params : ∀ param ∈ source.params, param.IsWritable
  params_nodup : (source.params.map ParamDoc.name).Nodup
  returns : ∀ result ∈ source.returns, result.IsWritable
  returns_ne_nil : source.returns ≠ []

namespace FunctionSource

/-- The header of the function. -/
def header (source : FunctionSource) : FunctionHeader :=
  ⟨source.owner, source.name, Text.join ", ".toList (source.params.map ParamDoc.name)⟩

/-- The comment in front of the header. -/
def comment (source : FunctionSource) : List Text :=
  source.description.map Tag.textLine ++
    (source.params.map ParamDoc.entry).map ParamEntry.line ++
    (source.returns.map ReturnDoc.entry).map ReturnEntry.line

/-- The line of the header. -/
def headerLine (source : FunctionSource) : Text := Declaration.headerText source.header [' '] []

/-- The lines of the source. -/
def lines (source : FunctionSource) : List Text :=
  source.comment ++ [source.headerLine, "end".toList]

/-- The function as a source. -/
def text (source : FunctionSource) : Text := Text.join ['\n'] source.lines

/-- The documentation of the function. -/
def function (source : FunctionSource) : FunctionDoc where
  name := source.name
  isStatic := source.owner.all (·.separator = .dot)
  description := describeLines source.description
  params := source.params
  returns := source.returns

/-- The documentation of the source: the function alone, in the class of its owner if it has
one. -/
def doc (source : FunctionSource) (namespaceName : Text) : Doc :=
  match source.owner with
  | none => ⟨[{ name := namespaceName, functions := [source.function] }]⟩
  | some owner =>
      ⟨[{ name := namespaceName
          classes := [{ name := dotted owner.path, functions := [source.function] }] }]⟩

/-! ## The comment as a block -/

theorem ofLines_comment {source : FunctionSource} (h : source.IsWritable) :
    Block.ofLines source.comment =
      { description := describeLines source.description
        params := source.params.map ParamDoc.entry
        returns := source.returns.map ReturnDoc.entry } := by
  refine Block.ofLines_written h.description ?_ ?_
  · intro entry he
    obtain ⟨param, hp, rfl⟩ := List.mem_map.mp he
    exact (h.params param hp).entry
  · intro entry he
    obtain ⟨result, hr, rfl⟩ := List.mem_map.mp he
    exact (h.returns result hr).entry

theorem isDocLine_of_mem_comment {source : FunctionSource} (h : source.IsWritable) :
    ∀ line ∈ source.comment, Tag.IsDocLine line := by
  intro line hl
  unfold comment at hl
  simp only [List.mem_append, List.mem_map] at hl
  rcases hl with (⟨text, ht, rfl⟩ | ⟨_, ⟨param, hp, rfl⟩, rfl⟩) | ⟨_, ⟨result, hr, rfl⟩, rfl⟩
  · exact Tag.isDocLine_textLine (h.description text ht).1
  · exact (h.params param hp).entry.isDocLine
  · exact (h.returns result hr).entry.isDocLine

/-! ## The header and the block -/

theorem header_isWritten {source : FunctionSource} (h : source.IsWritable) :
    source.header.IsWritten where
  owner := h.owner
  name := h.name
  params := by
    refine Declaration.join_ne_close fun name hn => ?_
    obtain ⟨param, hp, rfl⟩ := List.mem_map.mp hn
    exact (h.params param hp).name

theorem paramNames_header {source : FunctionSource} (h : source.IsWritable) :
    Declaration.paramNames source.header.params = source.params.map ParamDoc.name := by
  refine Declaration.paramNames_join fun name hn => ?_
  obtain ⟨param, hp, rfl⟩ := List.mem_map.mp hn
  exact (h.params param hp).name

/-- Among parameters of distinct names each is found by its own. -/
theorem find?_entry {params : List ParamDoc} (hn : (params.map ParamDoc.name).Nodup)
    {param : ParamDoc} (hp : param ∈ params) :
    (params.map ParamDoc.entry).find? (·.name = param.name) = some param.entry := by
  induction params with
  | nil => cases hp
  | cons first rest ih =>
      rw [List.map_cons, List.nodup_cons] at hn
      rw [List.map_cons]
      rcases List.mem_cons.mp hp with rfl | hp
      · exact List.find?_cons_of_pos (by simp [ParamDoc.entry])
      · have hne : first.name ≠ param.name := by
          intro heq
          exact hn.1 (heq ▸ List.mem_map_of_mem hp)
        rw [List.find?_cons_of_neg (by rw [decide_eq_true_iff]; exact hne), ih hn.2 hp]

theorem map_paramDoc {source : FunctionSource} (h : source.IsWritable) :
    (source.params.map ParamDoc.name).map (Reader.paramDoc (Block.ofLines source.comment)) =
      source.params := by
  have hone : ∀ param ∈ source.params,
      Reader.paramDoc (Block.ofLines source.comment) param.name = id param := by
    intro param hp
    rw [Reader.paramDoc, Block.findParam?, ofLines_comment h, find?_entry h.params_nodup hp]
    exact ParamDoc.finish_entry (h.params param hp)
  rw [List.map_map]
  exact (List.map_congr_left hone).trans (List.map_id _)

theorem map_finish_entry {source : FunctionSource} (h : source.IsWritable) :
    (source.returns.map ReturnDoc.entry).map ReturnEntry.finish = source.returns := by
  have hone : ∀ result ∈ source.returns, result.entry.finish = id result :=
    fun result hr => ReturnDoc.finish_entry (h.returns result hr)
  rw [List.map_map]
  exact (List.map_congr_left hone).trans (List.map_id _)

theorem finish_function {source : FunctionSource} (h : source.IsWritable) :
    source.function.finish = source.function := by
  rw [FunctionDoc.finish, function,
    cleanDescription_describeLines fun line hl => (h.description line hl).1]

/-- The header and the block of its comment document the function that was written, whatever
its body returns. -/
theorem functionDoc_comment {source : FunctionSource} (h : source.IsWritable)
    (returnsValue : Bool) :
    Reader.functionDoc (Block.ofLines source.comment) source.header returnsValue =
      source.function := by
  rw [Reader.functionDoc, paramNames_header h, map_paramDoc h, ofLines_comment h]
  split
  · -- the body would be asked only if no returned value were written
    rename_i hnil
    exact absurd (List.map_eq_nil_iff.mp hnil) h.returns_ne_nil
  · rw [map_finish_entry h]
    exact finish_function h

end FunctionSource

/-! ## Reading the lines -/

namespace Reader

/-- A line of documentation joins the pending block. -/
theorem step_docLine {reader : Reader} (ht : reader.table = none) {line : Text}
    (hl : Tag.IsDocLine line) (rest : List Text) :
    step reader line rest =
      { registry := reader.registry, pending := reader.pending ++ [line] } := by
  -- a line of documentation begins with a hyphen, and no local declaration does
  have hmark : docMarker <+: line := by
    have hdoc := hl.isDoc
    rw [Tag.isDocComment, Bool.and_eq_true] at hdoc
    exact List.isPrefixOf_iff_prefix.mp hdoc.1
  have hlocal : Declaration.isLocal line = false := by
    obtain ⟨more, rfl⟩ := hmark
    exact Declaration.isLocal_cons (by decide) _
  simp only [step, ht, plainLine, hl.trimmed, recordLocal, hlocal, hl.isDoc]
  rfl

/-- Lines of documentation gather in the pending block. -/
theorem run_docLines {lines : List Text} (hl : ∀ line ∈ lines, Tag.IsDocLine line)
    (registry : Registry) (pending rest : List Text) :
    run { registry, pending } (lines ++ rest) =
      run { registry, pending := pending ++ lines } rest := by
  induction lines generalizing pending with
  | nil => rw [List.nil_append, List.append_nil]
  | cons line more ih =>
      rw [List.cons_append, run, step_docLine rfl (hl line (by simp)),
        ih fun l h => hl l (List.mem_cons_of_mem _ h), List.append_assoc]
      rfl

/-- A trimmed line that begins like neither a comment nor a local declaration closes the pending
block. -/
theorem step_codeLine {c : Char} {more : Text} (htrim : Text.trim (c :: more) = c :: more)
    (hl : c ≠ 'l') (hd : c ≠ '-') (registry : Registry) (pending rest : List Text) :
    step { registry, pending } (c :: more) rest = codeLine registry pending (c :: more) rest := by
  have hlocal : Declaration.isLocal (c :: more) = false := Declaration.isLocal_cons hl more
  have hmark : docMarker.isPrefixOf (c :: more) = false :=
    Text.isPrefixOf_cons_eq_false hd _ _
  have hdoc : Tag.isDocComment (c :: more) = false := by
    rw [Tag.isDocComment, hmark, Bool.false_and]
  have hcomment : commentMarker.isPrefixOf (c :: more) = false :=
    Text.isPrefixOf_cons_eq_false hd _ _
  simp only [step, plainLine, htrim, recordLocal, hlocal, hdoc, hcomment]
  rfl

/-- The header of a function that is written with its whole comment adds the function. -/
theorem step_headerLine {source : FunctionSource} (h : source.IsWritable) (rest : List Text) :
    step { pending := source.comment } source.headerLine rest =
      { registry := addFunction {} source.owner source.function } := by
  have hread : Declaration.headerOf? source.headerLine = some source.header := by
    have happ := Declaration.headerOf?_append (FunctionSource.header_isWritten h)
      (show ∀ c ∈ [' '], isBlank c = true by decide) (by simp)
      (show ∀ c ∈ ([] : Text), isBlank c = true by simp) []
    rwa [List.append_nil] at happ
  have hlocal : Declaration.isLocal source.headerLine = false :=
    Declaration.isLocal_cons (by decide) _
  -- nothing is local yet, so no owner is hidden
  have hhidden : isHiddenOwner {} source.header.owner = false := by
    cases hown : source.header.owner with
    | none => rfl
    | some owner => rfl
  have hcommit : commitFunction {} (Block.ofLines source.comment) source.headerLine rest =
      addFunction {} source.owner source.function := by
    simp only [commitFunction, hlocal, hread, hhidden, FunctionSource.functionDoc_comment h]
    rfl
  have hcode : codeLine {} source.comment source.headerLine rest =
      { registry := commitFunction {} (Block.ofLines source.comment) source.headerLine rest } := by
    rw [codeLine, commitBlock, FunctionSource.ofLines_comment h]
  rw [← hcommit, ← hcode]
  exact step_codeLine (Declaration.trim_headerText _ _ _) (by decide) (by decide) _ _ _

/-- The line that closes a function documents nothing. -/
theorem step_endLine (registry : Registry) (rest : List Text) :
    step { registry } "end".toList rest = { registry } := by
  rfl

end Reader

namespace FunctionSource

theorem lines_text {source : FunctionSource} (h : source.IsWritable) :
    Text.lines source.text = source.lines := by
  refine Text.lines_join (fun line hl => ?_) ?_
  · rcases List.mem_append.mp hl with hl | hl
    · exact (isDocLine_of_mem_comment h line hl).oneLine
    · rcases List.mem_pair.mp hl with rfl | rfl
      · refine Declaration.headerText_oneLine (header_isWritten h) ?_
        refine Text.OneLine.join (by decide) fun name hn => ?_
        obtain ⟨param, hp, rfl⟩ := List.mem_map.mp hn
        exact (h.params param hp).name.oneLine
      · decide
  · have hlast : source.lines.getLast? = some "end".toList := by
      rw [lines, List.getLast?_append_of_ne_nil _ (by simp)]
      rfl
    rw [hlast]
    decide

/-- The registry that holds the function alone is the documentation of the source. -/
theorem flatten_addFunction {source : FunctionSource} (h : source.IsWritable)
    (namespaceName : Text) :
    (Reader.addFunction {} source.owner source.function).flatten namespaceName =
      .ok (source.doc namespaceName) := by
  have hbuild : source.function.draft.build = .ok source.function :=
    congrArg Except.ok (finish_function h)
  unfold doc
  cases source.owner with
  | none =>
      simp only [Reader.addFunction, Registry.addFunction, Registry.flatten, List.nil_append,
        List.mapM_cons, List.mapM_nil, hbuild]
      rfl
  | some owner => rfl

end FunctionSource

/-- **A documented function is read back from its source**, and nothing else is. -/
theorem parse_functionSource {source : FunctionSource} (h : source.IsWritable)
    (namespaceName : Text) :
    parse source.text namespaceName = .ok (source.doc namespaceName) := by
  have hrun : Reader.run {} source.lines =
      { registry := Reader.addFunction {} source.owner source.function } :=
    calc Reader.run {} source.lines
        = Reader.run { pending := source.comment } [source.headerLine, "end".toList] := by
          rw [FunctionSource.lines,
            Reader.run_docLines (FunctionSource.isDocLine_of_mem_comment h), List.nil_append]
      _ = Reader.run { registry := Reader.addFunction {} source.owner source.function }
            ["end".toList] := by rw [Reader.run, Reader.step_headerLine h]
      _ = { registry := Reader.addFunction {} source.owner source.function } := by
          rw [Reader.run, Reader.step_endLine, Reader.run]
  rw [parse, FunctionSource.lines_text h, hrun, FunctionSource.flatten_addFunction h]

/-- A method with an optional parameter, one for all further arguments, and a returned value. -/
def circleScale : FunctionSource where
  owner := some ⟨["shape".toList, "Circle".toList], .colon⟩
  name := "scale".toList
  description := ["Scales a circle.".toList]
  params := [⟨"factor".toList, "number".toList, true, some "the new size".toList⟩,
    ⟨"...".toList, "string[]".toList, false, none⟩]
  returns := [⟨"boolean".toList, "ok".toList, some "whether it fits".toList⟩]

theorem circleScale_isWritable : circleScale.IsWritable where
  owner := by
    intro owner ho
    obtain rfl := Option.some.inj ho
    exact ⟨by decide, fun word hw => ⟨by revert word; decide, by revert word; decide⟩⟩
  name := ⟨by decide, by decide⟩
  description := by
    intro line hl
    obtain rfl := List.mem_singleton.mp hl
    refine ⟨⟨by decide, by decide, by decide⟩, fun c rest heq => ?_⟩
    exact absurd (congrArg List.head? heq) (show some 'S' ≠ some '@' by decide)
  params := by
    intro param hp
    rcases List.mem_pair.mp hp with rfl | rfl
    · refine ⟨.inl ⟨by decide, by decide⟩, ?_, fun text ht => ?_⟩
      · exact ⟨.plain (.one (.atom (.run (by decide) (by decide)))), by decide, by decide⟩
      · obtain rfl := Option.some.inj ht
        exact ⟨⟨by decide, by decide, by decide⟩, by decide⟩
    · refine ⟨.inr rfl, ?_, by simp⟩
      exact ⟨.plain (.one (.atom (.run (by decide) (by decide)))), by decide, by decide⟩
  params_nodup := by decide
  returns := by
    intro result hr
    obtain rfl := List.mem_singleton.mp hr
    refine ⟨?_, fun _ => ⟨by decide, by decide⟩, fun text ht => ?_, by decide⟩
    · exact ⟨.plain (.one (.atom (.run (by decide) (by decide)))), by decide, by decide⟩
    · obtain rfl := Option.some.inj ht
      exact ⟨by decide, by decide, by decide⟩
  returns_ne_nil := by decide

theorem parse_circleScale :
    circleScale.IsWritable ∧
      circleScale.lines = ["--- Scales a circle.".toList,
        "---@param factor number? the new size".toList, "---@param ... string[]".toList,
        "---@return boolean ok whether it fits".toList,
        "function shape.Circle:scale(factor, ...)".toList, "end".toList] ∧
      parse circleScale.text "game".toList = .ok (circleScale.doc "game".toList) :=
  ⟨circleScale_isWritable, by decide +kernel, parse_functionSource circleScale_isWritable _⟩

end LuaReference
