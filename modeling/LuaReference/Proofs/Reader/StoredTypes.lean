import LuaReference.Proofs.Reader.AddedFunction
import LuaReference.Proofs.Reader.Blocks
import LuaReference.Proofs.Reader.HiddenLocals
import LuaReference.Proofs.Tag.Continuation

set_option autoImplicit false

/-! # The types that are stored

The type of a parameter or of a returned value is one that a documentation comment writes, less one
question mark at its end, or it is the type of what nothing is written about (`parse_types`). One
question mark is all that is taken off, and the grammar of types lets a type be a question mark, or
end in several. Such a type is stored empty, or with a question mark at its end still; every other
one is stored clean.

The types are followed from the source to the functions: what is pending are comments of the source
(`pending_subset_step`), the entries of a block are made by its lines (`exists_of_mem_params`), and
a registry has no functions but those that were added to it (`ChangesBy.functions`).
-/

namespace LuaReference

/-! ## One question mark -/

/-- A type of which nothing is missing and nothing is left to take off. -/
structure IsCleanType (type : Text) : Prop where
  ne_nil : type ≠ []
  unmarked : type.getLast? ≠ some '?'

/-- The written type is no more than a question mark, or it ends in two. -/
def OverMarked (written : Text) : Prop := written = ['?'] ∨ ['?', '?'] <:+ written

theorem isCleanType_anyType : IsCleanType anyType := ⟨by decide, by decide⟩

/-- What is left of a type is clean unless too many question marks are written. -/
theorem isCleanType_iff {written type : Text} {optional : Bool} (hne : written ≠ [])
    (happend : written = type ++ if optional then ['?'] else [])
    (hmarked : optional = true ↔ written.getLast? = some '?') :
    IsCleanType type ↔ ¬ OverMarked written := by
  rw [OverMarked, not_or]
  cases optional with
  | true =>
      obtain rfl : written = type ++ ['?'] := happend
      have halone : type ++ ['?'] = ['?'] ↔ type = [] := by simp
      have htwo : ['?', '?'] <:+ type ++ ['?'] ↔ type.getLast? = some '?' := by
        rw [List.getLast?_eq_some_iff]
        refine exists_congr fun front => ?_
        rw [← List.concat_append, List.concat_eq_append, List.append_left_inj, eq_comm]
      rw [halone, htwo]
      exact ⟨fun h => ⟨h.ne_nil, h.unmarked⟩, fun h => ⟨h.1, h.2⟩⟩
  | false =>
      obtain rfl : written = type := happend.trans (List.append_nil type)
      have hmark : written.getLast? ≠ some '?' := fun h => Bool.false_ne_true (hmarked.mpr h)
      refine iff_of_true ⟨hne, hmark⟩ ⟨?_, ?_⟩
      · rintro rfl
        exact hmark rfl
      · rintro ⟨front, rfl⟩
        exact hmark (by simp)

/-! ## What comments write -/

namespace Tag

/-- The type expression of a tag. -/
def typeExpr? : Tag → Option Text
  | .field _ _ expr _ | .type expr _ | .param _ expr _ | .result expr _ _ => some expr
  | _ => none

variable {line rest : Text} {tag : Tag}

/-- The type of a tag that a rule makes of what it reads is a type expression. -/
theorem typeExpr_of_bind_read? {text : Text} {make : Text × Text → Option (Tag × Text)}
    (h : (TypeExpr.read? text).bind make = some (tag, rest))
    (hmake : ∀ expr behind, make (expr, behind) = some (tag, rest) → tag.typeExpr? = some expr) :
    ∀ expr ∈ tag.typeExpr?, TypeExpr.IsTypeExpr expr := by
  obtain ⟨⟨read, behind⟩, hread, h⟩ := Option.bind_eq_some_iff.mp h
  intro expr hexpr
  obtain rfl := Option.some.inj ((hmake read behind h).symm.trans hexpr)
  exact (TypeExpr.isTypeExpr_of_read? hread).2

theorem typeExpr_fieldBody? {visibility : Option Text}
    (h : fieldBody? visibility line = some (tag, rest)) :
    ∀ expr ∈ tag.typeExpr?, TypeExpr.IsTypeExpr expr := by
  rw [fieldBody?] at h
  obtain ⟨_, -, h⟩ := Option.bind_eq_some_iff.mp h
  obtain ⟨_, -, h⟩ := Option.bind_eq_some_iff.mp h
  exact typeExpr_of_bind_read? h (by rintro expr behind ⟨⟩; rfl)

theorem typeExpr_type? (h : type? line = some (tag, rest)) :
    ∀ expr ∈ tag.typeExpr?, TypeExpr.IsTypeExpr expr := by
  rw [type?] at h
  obtain ⟨_, -, h⟩ := Option.bind_eq_some_iff.mp h
  exact typeExpr_of_bind_read? h (by rintro expr behind ⟨⟩; rfl)

theorem typeExpr_param? (h : param? line = some (tag, rest)) :
    ∀ expr ∈ tag.typeExpr?, TypeExpr.IsTypeExpr expr := by
  rw [param?] at h
  obtain ⟨_, -, h⟩ := Option.bind_eq_some_iff.mp h
  obtain ⟨_, -, h⟩ := Option.bind_eq_some_iff.mp h
  obtain ⟨_, -, h⟩ := Option.bind_eq_some_iff.mp h
  exact typeExpr_of_bind_read? h (by rintro expr behind ⟨⟩; rfl)

theorem typeExpr_result? (h : result? line = some (tag, rest)) :
    ∀ expr ∈ tag.typeExpr?, TypeExpr.IsTypeExpr expr := by
  rw [result?] at h
  obtain ⟨_, -, h⟩ := Option.bind_eq_some_iff.mp h
  exact typeExpr_of_bind_read? h (by rintro expr behind ⟨⟩; rfl)

/-- The types of a tag that was read are type expressions. -/
theorem isTypeExpr_of_ofLine? (h : ofLine? line = some tag) :
    ∀ expr ∈ tag.typeExpr?, TypeExpr.IsTypeExpr expr := by
  obtain ⟨⟨read, rest⟩, hread, hsame⟩ := Option.map_eq_some_iff.mp h
  obtain rfl : read = tag := hsame
  have hdeclaration {keyword : Text} {isEnum : Bool}
      (h : declaration? keyword isEnum line = some (read, rest)) : read.typeExpr? = none := by
    obtain ⟨_, _, _, -, -, -, -, rfl, -⟩ := exists_of_declaration? h
    rfl
  rcases read?_cases hread with h | h | h | h | h | h | rfl | rfl
  · simp [hdeclaration h]
  · simp [hdeclaration h]
  · obtain ⟨_, _, _, _, -, -, -, hbody⟩ := exists_of_field? h
    exact typeExpr_fieldBody? hbody
  · exact typeExpr_type? h
  · exact typeExpr_param? h
  · exact typeExpr_result? h
  · simp [typeExpr?]
  · simp [typeExpr?]

/-- The comment writes a type for the parameter of a name. -/
def WritesParam (name line written : Text) : Prop :=
  ∃ description, ofLine? line = some (.param name written description)

/-- The comment writes a type for a returned value of that name, which is empty if it has none. -/
def WritesResult (name line written : Text) : Prop :=
  ∃ given description, ofLine? line = some (.result written given description) ∧
    given.getD [] = name

end Tag

namespace Block

/-- An entry on a parameter is made by the tag of one of the lines. -/
theorem exists_of_mem_params {lines : List Text} {entry : ParamEntry}
    (h : entry ∈ (ofLines lines).params) :
    ∃ line ∈ lines, Tag.WritesParam entry.name line entry.type := by
  rw [ofLines, foldl_addLine_eq] at h
  obtain ⟨made, hmade, hentry⟩ := List.mem_flatten.mp h
  obtain ⟨i, hi, rfl⟩ := List.mem_mapIdx.mp hmade
  obtain ⟨tag, htag, hgiven⟩ := Option.bind_eq_some_iff.mp (Option.mem_toList.mp hentry)
  refine ⟨lines[i], List.getElem_mem hi, ?_⟩
  cases tag with
  | param name written description =>
      obtain rfl := Option.some.inj hgiven
      exact ⟨description, htag⟩
  | _ => cases hgiven

/-- So is one on a returned value. -/
theorem exists_of_mem_returns {lines : List Text} {entry : ReturnEntry}
    (h : entry ∈ (ofLines lines).returns) :
    ∃ line ∈ lines, Tag.WritesResult entry.finish.name line entry.type := by
  rw [ofLines, foldl_addLine_eq] at h
  obtain ⟨line, hline, hmade⟩ := List.mem_filterMap.mp h
  obtain ⟨tag, htag, hgiven⟩ := Option.bind_eq_some_iff.mp hmade
  refine ⟨line, hline, ?_⟩
  cases tag with
  | result written name description =>
      obtain rfl := Option.some.inj hgiven
      exact ⟨name, description, htag, rfl⟩
  | _ => cases hgiven

end Block

/-! ## What a function stores -/

/-- Where a stored type comes from, `writes` telling which types a comment writes for it. -/
inductive IsTypedBy (comments : List Text) (writes : Text → Text → Prop) (type : Text)
    (optional : Bool) : Prop where
  /-- A comment writes it, as a type expression. A question mark at the end is no part of it and
  makes it optional, and what is left is clean unless too many of them are written. -/
  | written {line written : Text} (mem : line ∈ comments) (writes : writes line written)
      (expr : TypeExpr.IsTypeExpr written)
      (append : written = type ++ if optional then ['?'] else [])
      (marked : optional = true ↔ written.getLast? = some '?')
      (clean_iff : IsCleanType type ↔ ¬ OverMarked written)
  /-- Without a comment nothing is known about it. -/
  | unwritten (type_eq : type = anyType) (optional_eq : optional = false)

/-- A type is clean if no comment writes too many question marks for it. -/
theorem IsTypedBy.isCleanType {comments : List Text} {writes : Text → Text → Prop} {type : Text}
    {optional : Bool} (h : IsTypedBy comments writes type optional)
    (hwritten : ∀ line ∈ comments, ∀ written, writes line written → ¬ OverMarked written) :
    IsCleanType type := by
  cases h with
  | written mem hwrites expr append marked clean_iff =>
      exact clean_iff.mpr (hwritten _ mem _ hwrites)
  | unwritten type_eq => exact type_eq ▸ isCleanType_anyType

/-- A function whose types come from comments. -/
structure FunctionDoc.TypedBy (comments : List Text) (function : FunctionDoc) : Prop where
  params : ∀ param ∈ function.params,
    IsTypedBy comments (Tag.WritesParam param.name) param.type param.optional
  /-- The mark of a returned value is dropped. -/
  returns : ∀ value ∈ function.returns,
    ∃ optional, IsTypedBy comments (Tag.WritesResult value.name) value.type optional

namespace Reader

variable {lines comments : List Text}

theorem typedBy_paramDoc (hlines : lines ⊆ comments) (name : Text) :
    let param := paramDoc (Block.ofLines lines) name
    IsTypedBy comments (Tag.WritesParam param.name) param.type param.optional := by
  cases isFrom_paramDoc (Block.ofLines lines) name with
  | @documented before after entry entries_eq named first type optional description =>
      have hentry : entry ∈ (Block.ofLines lines).params := by simp [entries_eq]
      obtain ⟨line, hline, text, htag⟩ := Block.exists_of_mem_params hentry
      have hexpr := Tag.isTypeExpr_of_ofLine? htag entry.type rfl
      exact .written (hlines hline) ⟨text, named ▸ htag⟩ hexpr type optional
        (isCleanType_iff hexpr.ne_nil type optional)
  | undocumented unnamed type optional description => exact .unwritten type optional

theorem typedBy_returnDoc (hlines : lines ⊆ comments) {entry : ReturnEntry}
    (hentry : entry ∈ (Block.ofLines lines).returns) :
    ∃ optional, IsTypedBy comments (Tag.WritesResult entry.finish.name) entry.finish.type
      optional := by
  obtain ⟨line, hline, hwrites⟩ := Block.exists_of_mem_returns hentry
  obtain ⟨given, text, htag, -⟩ := id hwrites
  have hexpr := Tag.isTypeExpr_of_ofLine? htag entry.type rfl
  have happend := (splitOptional_append entry.type).symm
  have hmarked := splitOptional_optional entry.type
  exact ⟨_, .written (hlines hline) hwrites hexpr happend hmarked
    (isCleanType_iff hexpr.ne_nil happend hmarked)⟩

/-- The types of a function come from the comments that its block is made of. -/
theorem typedBy_functionDoc (hlines : lines ⊆ comments) (header : FunctionHeader)
    (returnsValue : Bool) :
    (functionDoc (Block.ofLines lines) header returnsValue).TypedBy comments where
  params := by
    intro param hparam
    obtain ⟨name, -, rfl⟩ := List.mem_map.mp hparam
    exact typedBy_paramDoc hlines name
  returns := by
    have hdocuments := functionDoc_documents (Block.ofLines lines) header returnsValue
    intro value hvalue
    by_cases hnil : (Block.ofLines lines).returns = []
    · rw [hdocuments.returns_of_nil hnil] at hvalue
      cases returnsValue with
      | true => exact ⟨false, List.mem_singleton.mp hvalue ▸ .unwritten rfl rfl⟩
      | false => cases hvalue
    · rw [hdocuments.returns hnil] at hvalue
      obtain ⟨entry, hentry, rfl⟩ := List.mem_map.mp hvalue
      exact typedBy_returnDoc hlines hentry

end Reader

/-! ## The functions of a registry -/

namespace Registry

/-- The functions that a change adds. -/
def Change.functions : Change → List FunctionDoc
  | .inClass _ change => change.functions
  | .addFunction function => [function]
  | .addField _ | .addLocal _ => []

/-- A function in one of the classes, or the draft of one outside of them. -/
def HasFunction (registry : Registry) (function : FunctionDoc) : Prop :=
  (∃ doc ∈ registry.classes, function ∈ doc.functions) ∨ function.draft ∈ registry.functions

theorem draft_injective : Function.Injective FunctionDoc.draft := by
  rintro ⟨⟩ ⟨⟩ h
  simpa [FunctionDoc.draft] using h

variable {function : FunctionDoc}

theorem exists_of_mem_updateClass {name : Text} {change : ClassChange} {classes : List ClassDoc}
    (h : ∃ doc ∈ updateClass name change.apply classes, function ∈ doc.functions) :
    (∃ doc ∈ classes, function ∈ doc.functions) ∨ function ∈ change.functions := by
  induction classes with
  | nil => simpa [updateClass] using h
  | cons first rest ih =>
      rw [updateClass] at h
      split at h
      · rw [List.exists_mem_cons_iff, ClassChange.apply_functions, List.mem_append] at h
        rw [List.exists_mem_cons_iff]
        exact or_right_comm.mp h
      · rw [List.exists_mem_cons_iff] at h ⊢
        rcases h with h | h
        · exact .inl (.inl h)
        · exact (ih h).imp_left .inr

/-- A change brings the functions that it adds and no other. -/
theorem hasFunction_of_apply {registry : Registry} {change : Change}
    (h : (registry.apply change).HasFunction function) :
    registry.HasFunction function ∨ function ∈ change.functions := by
  rcases h with h | h
  · cases change with
    | inClass name change => exact (exists_of_mem_updateClass h).imp_left .inl
    | addFunction added => exact .inl (.inl h)
    | addField field => exact .inl (.inl h)
    | addLocal name =>
        rw [classes_apply_of_none registry rfl] at h
        exact .inl (.inl h)
  · rw [functions_apply, List.mem_append] at h
    rcases h with h | h
    · exact .inl (.inr h)
    · obtain ⟨added, hadded, hdraft⟩ := List.mem_map.mp h
      obtain rfl := draft_injective hdraft
      cases change with
      | addFunction other =>
          exact .inr (by simpa [Change.function?, Change.functions, eq_comm] using hadded)
      | _ => cases hadded

/-- What holds of the functions that changes add holds of all that are there behind them. -/
theorem ChangesBy.functions {good : FunctionDoc → Prop} {old new : Registry}
    (h : ChangesBy (fun change => ∀ function ∈ change.functions, good function) old new)
    (hold : ∀ function, old.HasFunction function → good function) :
    ∀ function, new.HasFunction function → good function := by
  obtain ⟨changes, rfl, hall⟩ := h
  induction changes generalizing old with
  | nil => exact hold
  | cons change changes ih =>
      rw [List.forall_mem_cons] at hall
      refine ih (fun function hfunction => ?_) hall.2
      exact (hasFunction_of_apply hfunction).elim (hold function) (hall.1 function)

end Registry

/-! ## Runs -/

namespace Reader

open Registry (Change)

/-- The functions that a line writes take their types from the pending block. -/
theorem typedBy_of_writes {reader : Reader} {comments : List Text}
    (hpending : reader.pending ⊆ comments) {line : Text} {change : Change}
    (h : Writes reader line change) :
    ∀ function ∈ change.functions, function.TypedBy comments := by
  cases h with
  | classFunction found owned visible =>
      exact List.forall_mem_singleton.mpr (typedBy_functionDoc hpending _ _)
  | function found owned =>
      exact List.forall_mem_singleton.mpr (typedBy_functionDoc hpending _ _)
  | _ => exact fun _ hfunction => nomatch hfunction

/-- What is pending are comments of the lines that are read. -/
theorem pending_subset_step {reader : Reader} {comments : List Text}
    (h : reader.pending ⊆ comments) {line : Text}
    (hline : ∀ comment ∈ docComment? line, comment ∈ comments) (rest : List Text) :
    (step reader line rest).pending ⊆ comments := by
  cases htable : reader.table with
  | some entry => rwa [pending_step_of_table (by simp [htable])]
  | none =>
      rw [pending_step htable]
      refine List.append_subset.mpr ⟨?_, fun comment hc => hline comment (by simpa using hc)⟩
      split
      · exact List.nil_subset _
      · exact h

/-- **The types of all functions come from comments of the source.** -/
theorem typedBy_run (lines : List Text) :
    ∀ function, (run {} lines).registry.HasFunction function →
      function.TypedBy (lines.filterMap docComment?) := by
  have hempty : ({} : Reader).pending ⊆ lines.filterMap docComment? := List.nil_subset _
  obtain ⟨hpending, -⟩ := invariant_of_step
    (fun reader => reader.pending ⊆ lines.filterMap docComment?) hempty
    fun visit (hv : visit ∈ visits {} lines []) behind hpending => pending_subset_step hpending
      (fun comment hc => List.mem_filterMap.mpr ⟨visit.2, mem_of_mem_visits hv, hc⟩) behind
  have hchanges := writes_advance _ fun visit hv change hw =>
    typedBy_of_writes (hpending visit hv) hw
  rw [run_eq_advance]
  refine hchanges.functions fun function hfunction => ?_
  simp [Registry.HasFunction] at hfunction

end Reader

/-! ## Whole sources -/

/-- The functions of a namespace, those of its classes first. -/
def NamespaceDoc.allFunctions (space : NamespaceDoc) : List FunctionDoc :=
  space.classes.flatMap ClassDoc.functions ++ space.functions

/-- The documentation comments of a source. -/
def docComments (code : Text) : List Text := (Text.lines code).filterMap Reader.docComment?

/-- A source has documentation, in which the types of all functions come from its comments. -/
theorem exists_typedBy_parse (code namespaceName : Text) :
    ∃ space : NamespaceDoc, parse code namespaceName = .ok ⟨[space]⟩ ∧
      ∀ function ∈ space.allFunctions, function.TypedBy (docComments code) := by
  obtain ⟨functions, hdrafts, -, hparse⟩ := exists_parse code namespaceName
  refine ⟨_, hparse, fun function hfunction => ?_⟩
  rcases List.mem_append.mp hfunction with hclass | houtside
  · obtain ⟨doc, hdoc, hmem⟩ := List.mem_flatMap.mp hclass
    exact Reader.typedBy_run _ function (.inl ⟨doc, hdoc, hmem⟩)
  · -- finishing a function changes its description only
    obtain ⟨unfinished, hmem, rfl⟩ := List.mem_map.mp houtside
    have hdraft : unfinished.draft ∈ (Reader.run {} (Text.lines code)).registry.functions :=
      hdrafts ▸ List.mem_map_of_mem hmem
    obtain ⟨hparams, hreturns⟩ := Reader.typedBy_run _ unfinished (.inr hdraft)
    exact ⟨hparams, hreturns⟩

/-- **How types are stored.** Every source has documentation, in which the types of parameters and
returned values are those that its comments write, each without the one question mark at its end, or
the type of what nothing is written about. All of them are clean if no comment writes a type that
is a question mark alone or ends in two. -/
theorem parse_types (code namespaceName : Text) :
    ∃ space : NamespaceDoc, parse code namespaceName = .ok ⟨[space]⟩ ∧
      (∀ function ∈ space.allFunctions, function.TypedBy (docComments code)) ∧
      ((∀ line ∈ docComments code, ∀ name written,
          Tag.WritesParam name line written ∨ Tag.WritesResult name line written →
            ¬ OverMarked written) →
        ∀ function ∈ space.allFunctions,
          (∀ param ∈ function.params, IsCleanType param.type) ∧
            ∀ value ∈ function.returns, IsCleanType value.type) := by
  obtain ⟨space, hparse, htyped⟩ := exists_typedBy_parse code namespaceName
  refine ⟨space, hparse, htyped, fun hwritten function hfunction => ⟨?_, ?_⟩⟩
  · intro param hparam
    exact ((htyped function hfunction).params param hparam).isCleanType
      fun line hline written hwrites => hwritten line hline param.name written (.inl hwrites)
  · intro value hvalue
    obtain ⟨optional, hvalue⟩ := (htyped function hfunction).returns value hvalue
    exact hvalue.isCleanType
      fun line hline written hwrites => hwritten line hline value.name written (.inr hwrites)

/-- Two question marks behind a type, and one without a type. -/
def markedSource : Text :=
  "---@param by number??\n---@return ?\nfunction turn(by) end".toList

/-- One question mark is left of two, and of one alone nothing is left. -/
theorem parse_markedSource :
    parse markedSource defaultNamespace = .ok ⟨[
        { name := defaultNamespace
          functions := [
            { name := "turn".toList
              params := [⟨"by".toList, "number?".toList, true, none⟩]
              returns := [⟨[], [], none⟩] }] }]⟩ ∧
      ¬ IsCleanType "number?".toList ∧ ¬ IsCleanType [] := by
  refine ⟨by decide +kernel, fun h => h.unmarked (by decide), fun h => h.ne_nil rfl⟩

end LuaReference
