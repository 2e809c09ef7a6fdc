import LuaReference.Proofs.Registry.Change
import LuaReference.Reader.Basic

set_option autoImplicit false

/-! # What reading a line does

Outside of enum tables a line is of one of four kinds, and its kind alone says what becomes of the
pending block (`plainLine_eq`). All that a line of any kind does to the registry is listed in
`Writes`, with the guards it does it under (`writes_step`). What is to be shown of a whole run
therefore needs a look at that list only; a run is taken apart by `advance`, and its lines with
the states in front of them are its `visits`.
-/

namespace LuaReference

namespace Reader

open Registry (Change ChangesBy)

/-! ## Kinds of lines -/

/-- What a line can be outside of enum tables. -/
inductive LineKind where
  | documentation
  | blank
  | comment
  | code
deriving DecidableEq

/-- Whether a line of that kind closes the pending block. -/
def LineKind.closes : LineKind → Bool
  | .blank | .code => true
  | .documentation | .comment => false

/-- The kind of a line outside of enum tables. -/
def lineKind (line : Text) : LineKind :=
  if Tag.isDocComment (Text.trim line) then .documentation
  else if (Text.trim line).isEmpty then .blank
  else if commentMarker.isPrefixOf (Text.trim line) then .comment
  else .code

theorem plainLine_eq (reader : Reader) (line : Text) (rest : List Text) :
    plainLine reader line rest =
      match lineKind line with
      | .documentation =>
          { registry := recordLocal reader.registry (Text.trim line)
            pending := reader.pending ++ [Text.trim line] }
      | .blank =>
          { registry := commitClass (recordLocal reader.registry (Text.trim line))
              (Block.ofLines reader.pending) }
      | .comment =>
          { registry := recordLocal reader.registry (Text.trim line), pending := reader.pending }
      | .code =>
          codeLine (recordLocal reader.registry (Text.trim line)) reader.pending (Text.trim line)
            rest := by
  unfold plainLine lineKind
  by_cases hdoc : Tag.isDocComment (Text.trim line) = true
  · simp only [hdoc, if_true]
  · by_cases hblank : (Text.trim line).isEmpty = true
    · simp only [hdoc, hblank, if_true]
      rfl
    · by_cases hcomment : commentMarker.isPrefixOf (Text.trim line) = true
      · simp only [hdoc, hblank, hcomment, if_true]
        rfl
      · simp only [hdoc, hblank, hcomment]
        rfl

/-- The block that a line closes: the pending comments in front of a blank line or a line of
code, if there are any. -/
def closedBlock? (reader : Reader) (line : Text) : Option (List Text) :=
  if reader.table.isNone && (lineKind line).closes && !reader.pending.isEmpty then
    some reader.pending
  else none

/-- The class or enum whose block a line closes. -/
def declared? (reader : Reader) (line : Text) : Option ClassDecl :=
  (closedBlock? reader line).bind fun block => (Block.ofLines block).classDecl

/-- A block declares a class only if it has lines, so it does not matter that an empty block is
not counted as closed. -/
theorem declared?_of_closes {reader : Reader} {line : Text} (ht : reader.table = none)
    (hc : (lineKind line).closes = true) :
    declared? reader line = (Block.ofLines reader.pending).classDecl := by
  rw [declared?, closedBlock?, ht, hc]
  cases reader.pending with
  | nil => rfl
  | cons first rest => rfl

theorem closes_of_declared? {reader : Reader} {line : Text} {decl : ClassDecl}
    (h : declared? reader line = some decl) :
    reader.table = none ∧ (lineKind line).closes = true ∧
      (Block.ofLines reader.pending).classDecl = some decl := by
  obtain ⟨block, hblock, hdecl⟩ := Option.bind_eq_some_iff.mp h
  rw [closedBlock?, Option.ite_none_right_eq_some, Bool.and_eq_true, Bool.and_eq_true,
    Option.isNone_iff_eq_none] at hblock
  obtain ⟨⟨⟨htable, hcloses⟩, -⟩, hpending⟩ := hblock
  obtain rfl := Option.some.inj hpending
  exact ⟨htable, hcloses, hdecl⟩

/-! ## What a line writes -/

/-- The changes that reading a line can make: all of them take what they document from the
pending block, from the line itself, or from the table that is being read. -/
inductive Writes (reader : Reader) (line : Text) : Change → Prop where
  /-- A local declaration records the path it assigns to. -/
  | addLocal {path : List Text} (isLocal : Declaration.isLocal (Text.trim line) = true)
      (target : Declaration.target? (Text.trim line) = some path) :
      Writes reader line (.addLocal (dotted path))
  /-- The block of a class describes it. -/
  | describe {decl : ClassDecl} (declared : declared? reader line = some decl) :
      Writes reader line
        (.inClass decl.name (.describe (Block.ofLines reader.pending).description))
  /-- The block of a class lists fields of it. -/
  | listFields {decl : ClassDecl} (declared : declared? reader line = some decl) :
      Writes reader line (.inClass decl.name
        (.addFields ((Block.ofLines reader.pending).fields.map FieldDoc.finish)))
  /-- The code line behind the block of an enum may hold values. -/
  | openTable {decl : ClassDecl} (declared : declared? reader line = some decl) :
      Writes reader line
        (.inClass decl.name (.addFields (EnumTable.start (Text.trim line)).values))
  /-- A line inside of an enum table may hold values. -/
  | tableLine {name : Text} {table : EnumTable} (inside : reader.table = some (name, table)) :
      Writes reader line (.inClass name (.addFields (table.step line).values))
  /-- An assignment to a member of a table that is not hidden documents a static field of it. -/
  | classField {owner name : Text} {decl : TypeDecl}
      (typed : (Block.ofLines reader.pending).typeDecl = some decl)
      (target : Declaration.target? (Text.trim line) = some [owner, name])
      (visible : reader.registry.isHidden owner = false) :
      Writes reader line
        (.inClass owner (.addFields [FieldDoc.finish ⟨name, decl.type, true, decl.description⟩]))
  /-- An assignment to a name that is not hidden documents a field of the namespace. -/
  | field {name : Text} {decl : TypeDecl}
      (typed : (Block.ofLines reader.pending).typeDecl = some decl)
      (target : Declaration.target? (Text.trim line) = some [name])
      (visible : reader.registry.isHidden name = false) :
      Writes reader line (.addField (FieldDoc.finish ⟨name, decl.type, true, decl.description⟩))
  /-- A function header whose owner is not hidden documents a function of the owner. -/
  | classFunction {header : FunctionHeader} {owner : Owner} {returnsValue : Bool}
      (found : Declaration.headerOf? (Text.trim line) = some header)
      (owned : header.owner = some owner)
      (visible : reader.registry.isHidden (owner.path.headD []) = false) :
      Writes reader line (.inClass (dotted owner.path) (.addFunction
        (functionDoc (Block.ofLines reader.pending) header returnsValue)))
  /-- A function header without an owner documents a function of the namespace. -/
  | function {header : FunctionHeader} {returnsValue : Bool}
      (found : Declaration.headerOf? (Text.trim line) = some header)
      (owned : header.owner = none) :
      Writes reader line
        (.addFunction (functionDoc (Block.ofLines reader.pending) header returnsValue))

section Writes

variable {reader : Reader} {line : Text}

theorem writes_recordLocal :
    ChangesBy (Writes reader line) reader.registry
      (recordLocal reader.registry (Text.trim line)) := by
  rw [recordLocal]
  split
  · rename_i hlocal
    cases htarget : Declaration.target? (Text.trim line) with
    | none => exact .refl _
    | some path => exact .one _ (Writes.addLocal hlocal htarget)
  · exact .refl _

/-- A line that declares nothing local records no local name. -/
theorem recordLocal_of_not_isLocal {registry : Registry} {line : Text}
    (h : Declaration.isLocal line = false) : recordLocal registry line = registry := by
  rw [recordLocal, h]
  rfl

theorem writes_commitClass (ht : reader.table = none) (hc : (lineKind line).closes = true)
    (registry : Registry) :
    ChangesBy (Writes reader line) registry
      (commitClass registry (Block.ofLines reader.pending)) := by
  have hdecl := declared?_of_closes ht hc
  rw [commitClass]
  cases h : (Block.ofLines reader.pending).classDecl with
  | none => exact .refl _
  | some decl =>
      rw [h] at hdecl
      exact .trans (.one _ (Writes.describe hdecl)) (.one _ (Writes.listFields hdecl))

theorem writes_commitField {decl : TypeDecl}
    (hd : (Block.ofLines reader.pending).typeDecl = some decl) :
    ChangesBy (Writes reader line) (recordLocal reader.registry (Text.trim line))
      (commitField (recordLocal reader.registry (Text.trim line)) decl (Text.trim line)) := by
  rw [commitField]
  by_cases hlocal : Declaration.isLocal (Text.trim line) = true
  · rw [if_pos hlocal]
    exact .refl _
  · rw [if_neg hlocal, recordLocal_of_not_isLocal (Bool.eq_false_iff.mpr hlocal)]
    split
    · rename_i name htarget
      split
      · exact .refl _
      · rename_i hvisible
        exact .one _ (Writes.field hd htarget (Bool.eq_false_iff.mpr hvisible))
    · rename_i owner name htarget
      split
      · exact .refl _
      · rename_i hvisible
        rw [Bool.or_eq_true, not_or] at hvisible
        exact .one _ (Writes.classField hd htarget (Bool.eq_false_iff.mpr hvisible.2))
    · exact .refl _

theorem writes_commitFunction (rest : List Text) :
    ChangesBy (Writes reader line) (recordLocal reader.registry (Text.trim line))
      (commitFunction (recordLocal reader.registry (Text.trim line))
        (Block.ofLines reader.pending) (Text.trim line) rest) := by
  rw [commitFunction]
  by_cases hlocal : Declaration.isLocal (Text.trim line) = true
  · rw [if_pos hlocal]
    exact .refl _
  · rw [if_neg hlocal, recordLocal_of_not_isLocal (Bool.eq_false_iff.mpr hlocal)]
    cases hfound : Declaration.headerOf? (Text.trim line) with
    | none => exact .refl _
    | some header =>
        cases howner : header.owner with
        | none =>
            simp only [howner]
            exact .one _ (Writes.function hfound howner)
        | some owner =>
            simp only [howner]
            by_cases hhidden : isHiddenOwner reader.registry (some owner) = true
            · rw [if_pos hhidden]
              exact .refl _
            · rw [if_neg hhidden]
              exact .one _ (Writes.classFunction hfound howner (Bool.eq_false_iff.mpr hhidden))

theorem writes_codeLine (ht : reader.table = none) (hk : lineKind line = .code)
    (rest : List Text) :
    ChangesBy (Writes reader line) (recordLocal reader.registry (Text.trim line))
      (codeLine (recordLocal reader.registry (Text.trim line)) reader.pending (Text.trim line)
        rest).registry := by
  have hc : (lineKind line).closes = true := by rw [hk]; rfl
  have hdecl := declared?_of_closes ht hc
  rw [codeLine, commitBlock]
  cases hclass : (Block.ofLines reader.pending).classDecl with
  | some decl =>
      rw [hclass] at hdecl
      cases henum : decl.isEnum with
      | false =>
          simp only [henum]
          exact writes_commitClass ht hc _
      | true =>
          have hopen : ChangesBy (Writes reader line) (commitClass
              (recordLocal reader.registry (Text.trim line)) (Block.ofLines reader.pending))
              (startTable (commitClass (recordLocal reader.registry (Text.trim line))
                (Block.ofLines reader.pending)) decl.name (Text.trim line)).registry :=
            .one _ (Writes.openTable hdecl)
          simp only [henum]
          exact (writes_commitClass ht hc _).trans hopen
  | none =>
      cases htype : (Block.ofLines reader.pending).typeDecl with
      | none => exact writes_commitFunction rest
      | some decl => exact writes_commitField htype

/-- Outside of enum tables a local name is recorded before anything else is done. -/
theorem writes_plainLine (ht : reader.table = none) (rest : List Text) :
    ChangesBy (Writes reader line) (recordLocal reader.registry (Text.trim line))
      (plainLine reader line rest).registry := by
  rw [plainLine_eq]
  cases hk : lineKind line with
  | documentation => exact .refl _
  | comment => exact .refl _
  | blank =>
      have hc : (lineKind line).closes = true := by rw [hk]; rfl
      exact writes_commitClass ht hc _
  | code => exact writes_codeLine ht hk rest

end Writes

/-- **All that reading a line does to the registry** is in the list `Writes`. -/
theorem writes_step (reader : Reader) (line : Text) (rest : List Text) :
    ChangesBy (Writes reader line) reader.registry (step reader line rest).registry := by
  cases ht : reader.table with
  | some entry =>
      rw [step, ht]
      exact .one _ (Writes.tableLine ht)
  | none =>
      rw [step, ht]
      exact writes_recordLocal.trans (writes_plainLine ht rest)

/-! ## Runs -/

/-- The state after reading `lines`, `rest` being the lines that follow. -/
def advance (reader : Reader) : List Text → List Text → Reader
  | [], _ => reader
  | line :: more, rest => advance (step reader line (more ++ rest)) more rest

/-- The lines of a run, each with the state in front of it. -/
def visits (reader : Reader) : List Text → List Text → List (Reader × Text)
  | [], _ => []
  | line :: more, rest => (reader, line) :: visits (step reader line (more ++ rest)) more rest

theorem run_append (reader : Reader) (lines rest : List Text) :
    run reader (lines ++ rest) = run (advance reader lines rest) rest := by
  induction lines generalizing reader with
  | nil => rfl
  | cons line more ih => exact ih _

theorem run_eq_advance (reader : Reader) (lines : List Text) :
    run reader lines = advance reader lines [] := by
  have h := run_append reader lines []
  rwa [List.append_nil] at h

theorem advance_append (reader : Reader) (first second rest : List Text) :
    advance reader (first ++ second) rest =
      advance (advance reader first (second ++ rest)) second rest := by
  induction first generalizing reader with
  | nil => rfl
  | cons line more ih => rw [List.cons_append, advance, ih, List.append_assoc, advance]

/-- An invariant of the single steps of a run holds at each line and at the end of the run. -/
theorem invariant_of_step (holds : Reader → Prop) {reader : Reader} {lines rest : List Text}
    (start : holds reader)
    (next : ∀ visit ∈ visits reader lines rest, ∀ behind,
      holds visit.1 → holds (step visit.1 visit.2 behind)) :
    (∀ visit ∈ visits reader lines rest, holds visit.1) ∧ holds (advance reader lines rest) := by
  induction lines generalizing reader with
  | nil => exact ⟨by simp [visits], start⟩
  | cons line more ih =>
      have hnext : holds (step reader line (more ++ rest)) :=
        next (reader, line) List.mem_cons_self _ start
      obtain ⟨hvisits, hlast⟩ := ih hnext fun visit hv => next visit (List.mem_cons_of_mem _ hv)
      refine ⟨fun visit hv => ?_, hlast⟩
      rcases List.mem_cons.mp hv with rfl | hv
      · exact start
      · exact hvisits visit hv

/-- A run makes the changes that its lines write, one after the other. -/
theorem writes_advance (allowed : Change → Prop) {reader : Reader} {lines rest : List Text}
    (h : ∀ visit ∈ visits reader lines rest, ∀ change,
      Writes visit.1 visit.2 change → allowed change) :
    ChangesBy allowed reader.registry (advance reader lines rest).registry := by
  induction lines generalizing reader with
  | nil => exact .refl _
  | cons line more ih =>
      have hline : ∀ change, Writes reader line change → allowed change :=
        h (reader, line) List.mem_cons_self
      exact ((writes_step reader line _).mono hline).trans
        (ih fun visit hv => h visit (List.mem_cons_of_mem _ hv))

/-- Whatever is read, the registry takes changes and nothing else. -/
theorem exists_changes_run (reader : Reader) (lines : List Text) :
    ∃ changes, (run reader lines).registry = reader.registry.applyAll changes := by
  obtain ⟨changes, hchanges, -⟩ :=
    writes_advance (fun _ => True) (fun visit (_ : visit ∈ visits reader lines []) _ _ => trivial)
  exact ⟨changes, by rw [run_eq_advance, hchanges]⟩

/-! ## Tables -/

/-- Behind a line that leaves a table open the class of the table is known, and either the same
table was open in front of the line or the line closed the block of the enum. -/
theorem table_step {reader : Reader} {line : Text} {rest : List Text} {name : Text}
    {table : EnumTable} (h : (step reader line rest).table = some (name, table)) :
    name ∈ (step reader line rest).registry.names ∧
      ((∃ before, reader.table = some (name, before)) ∨
        ∃ decl, declared? reader line = some decl ∧ decl.name = name) := by
  have hmem (registry : Registry) (fields : List FieldDoc) :
      name ∈ (registry.addClassFields name fields).names :=
    (Registry.mem_names_apply registry (.inClass name (.addFields fields)) name).mpr (.inl rfl)
  cases ht : reader.table with
  | some entry =>
      obtain ⟨owner, before⟩ := entry
      simp only [step, ht, tableLine, Option.map_eq_some_iff, Prod.mk.injEq] at h ⊢
      obtain ⟨_, _, rfl, rfl⟩ := h
      exact ⟨hmem _ _, .inl ⟨before, rfl⟩⟩
  | none =>
      simp only [step, ht, plainLine_eq] at h ⊢
      cases hk : lineKind line with
      | documentation => simp [hk] at h
      | comment => simp [hk] at h
      | blank => simp [hk] at h
      | code =>
          have hc : (lineKind line).closes = true := by rw [hk]; rfl
          have hdecl := declared?_of_closes ht hc
          simp only [hk, codeLine, commitBlock] at h ⊢
          cases hclass : (Block.ofLines reader.pending).classDecl with
          | none => cases htype : (Block.ofLines reader.pending).typeDecl <;> simp [hclass, htype] at h
          | some decl =>
              rw [hclass] at hdecl
              cases henum : decl.isEnum with
              | false => simp [hclass, henum] at h
              | true =>
                  simp only [hclass, henum, if_true, startTable, Option.map_eq_some_iff,
                    Prod.mk.injEq] at h ⊢
                  obtain ⟨_, _, rfl, rfl⟩ := h
                  exact ⟨hmem _ _, .inr ⟨decl, hdecl, rfl⟩⟩

/-- In every state that is reached the class of the open table is known. -/
theorem table_known (lines rest : List Text) :
    ∀ name table, (advance {} lines rest).table = some (name, table) →
      name ∈ (advance {} lines rest).registry.names := by
  refine (invariant_of_step (fun reader => ∀ name table, reader.table = some (name, table) →
    name ∈ reader.registry.names) ?_ ?_).2
  · intro name table h
    cases h
  · intro visit _ behind _ name table h
    exact (table_step h).1

end Reader

/-! ## Whole sources -/

/-- **Every source has documentation**, in one namespace that has each class once: nothing that a
line writes lacks a required part. -/
theorem exists_parse (code namespaceName : Text) :
    ∃ functions : List FunctionDoc,
      let registry := (Reader.run {} (Text.lines code)).registry
      registry.functions = functions.map FunctionDoc.draft ∧ registry.names.Nodup ∧
        parse code namespaceName = .ok ⟨[⟨namespaceName, registry.classes,
          functions.map FunctionDoc.finish, registry.fields⟩]⟩ := by
  obtain ⟨changes, hchanges⟩ := Reader.exists_changes_run {} (Text.lines code)
  have hfunctions : (Reader.run {} (Text.lines code)).registry.functions =
      (changes.filterMap Registry.Change.function?).map FunctionDoc.draft := by
    rw [hchanges, Registry.functions_applyAll]
    rfl
  refine ⟨_, hfunctions, ?_, Registry.flatten_of_drafts hfunctions namespaceName⟩
  rw [hchanges]
  have hempty : ({} : Registry).names.Nodup := List.nodup_nil
  exact Registry.nodup_names_applyAll hempty changes

end LuaReference
