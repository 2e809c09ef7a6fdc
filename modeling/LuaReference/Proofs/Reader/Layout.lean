import LuaReference.Proofs.Reader.Ahead
import LuaReference.Proofs.Reader.AppendOnly
import LuaReference.Proofs.Reader.Blocks
import LuaReference.Proofs.Source.EnumBody
import LuaReference.Proofs.Text.Lines

set_option autoImplicit false

/-! # The layout of a source

The layout of a source says nothing. Blanks at the ends of its lines do not matter
(`parse_of_trimmed_lines`), nor do comments between its lines (`parse_insert_comment`). Blank lines
at its end matter in one case: the end of a source closes no block, so a class that the last block
declares is documented only if a line follows (`parse_append_blankLines`).

The reader trims every line it reads or looks at, which is the first fact. For the other two, a
comment and a blank line leave a state as it is, apart from the block that the blank line closes
(`step_comment`, `step_blank`). Inside of an enum table that takes the class of the table to be
known, which it is in every state that is reached (`Steady`).
-/

namespace LuaReference

namespace Reader

open Returns (SameBody)

/-! ## Blanks at the ends of lines -/

theorem step_of_trim {line line' : Text} (h : Text.trim line = Text.trim line') (reader : Reader)
    (rest : List Text) : step reader line rest = step reader line' rest := by
  simp only [step, tableLine, EnumTable.step, plainLine, h]

theorem sameBody_of_trim {lines lines' : List Text}
    (h : lines.map Text.trim = lines'.map Text.trim) : SameBody lines lines' := by
  induction lines generalizing lines' with
  | nil =>
      obtain rfl : lines' = [] := List.map_eq_nil_iff.mp h.symm
      exact .refl _
  | cons line rest ih =>
      obtain ⟨line', rest', rfl, hline, hrest⟩ := List.map_eq_cons_iff.mp h.symm
      exact .cons (by rw [hline]) (by rw [hline]) (ih hrest.symm)

theorem run_of_trim {lines lines' : List Text} (h : lines.map Text.trim = lines'.map Text.trim)
    (reader : Reader) : run reader lines = run reader lines' := by
  induction lines generalizing lines' reader with
  | nil =>
      obtain rfl : lines' = [] := List.map_eq_nil_iff.mp h.symm
      rfl
  | cons line rest ih =>
      obtain ⟨line', rest', rfl, hline, hrest⟩ := List.map_eq_cons_iff.mp h.symm
      rw [run, run, step_of_trim hline.symm, step_of_sameBody (sameBody_of_trim hrest.symm),
        ih hrest.symm]

/-! ## States that are reached -/

/-- What holds of every state that is reached: inside of a table its class is known, and no block
is pending. -/
structure Steady (reader : Reader) : Prop where
  known : ∀ name table, reader.table = some (name, table) → name ∈ reader.registry.names
  pending : reader.table ≠ none → reader.pending = []

theorem steady_advance (lines rest : List Text) : Steady (advance {} lines rest) := by
  refine ⟨table_known lines rest, ?_⟩
  refine (invariant_of_step (fun reader => reader.table ≠ none → reader.pending = []) ?_ ?_).2
  · intro h
    exact absurd rfl h
  · intro visit _ behind hpending hopen
    obtain ⟨⟨name, table⟩, htable⟩ := Option.ne_none_iff_exists'.mp hopen
    rcases (table_step htable).2 with ⟨before, hbefore⟩ | ⟨decl, hdecl, -⟩
    · -- a table that was open already
      have hinside : visit.1.table ≠ none := by simp [hbefore]
      rw [pending_step_of_table hinside, hpending hinside]
    · -- the line has closed the block of the enum
      obtain ⟨hnone, hcloses, -⟩ := closes_of_declared? hdecl
      rw [pending_step hnone, if_pos hcloses, docComment?_of_closes hcloses]
      rfl

/-- Inside of a table nothing is pending that could declare a class. -/
theorem Steady.table_of_classDecl {reader : Reader} (h : Steady reader) {decl : ClassDecl}
    (hd : (Block.ofLines reader.pending).classDecl = some decl) : reader.table = none := by
  by_contra hinside
  rw [h.pending hinside] at hd
  cases hd

/-- A line that a table passes over leaves the state as it is. -/
theorem Steady.step_of_passed {reader : Reader} (h : Steady reader) {name : Text}
    {table : EnumTable} (ht : reader.table = some (name, table)) {line : Text}
    (hl : table.step line = ⟨[], some table⟩) (rest : List Text) :
    step reader line rest = reader := by
  have hknown := h.known name table ht
  obtain ⟨registry, pending, inside⟩ := reader
  obtain rfl : inside = some (name, table) := ht
  simp only [step, tableLine, hl, Option.map_some, Registry.addClassFields_nil hknown]

/-! ## Comments between lines -/

/-- A line that is a comment, but neither documentation nor one with an opening brace. -/
structure IsPlainComment (line : Text) : Prop where
  mark : commentMarker <+: Text.trim line
  undocumented : Tag.isDocComment (Text.trim line) = false
  noBrace : '\x7b' ∉ line

/-- A comment is passed over, wherever it is read. -/
theorem step_comment {reader : Reader} (h : Steady reader) {line : Text}
    (hl : IsPlainComment line) (rest : List Text) : step reader line rest = reader := by
  have hmark : commentMarker.isPrefixOf (Text.trim line) = true :=
    List.isPrefixOf_iff_prefix.mpr hl.mark
  cases ht : reader.table with
  | some entry =>
      obtain ⟨name, table⟩ := entry
      -- a comment that gives a type would be documentation
      have htype : ¬ EnumTable.typeMarker <+: Text.trim line := by
        rintro ⟨more, hmore⟩
        have hundocumented := hl.undocumented
        rw [← hmore] at hundocumented
        cases hundocumented
      have hbrace : '\x7b' ∉ Text.trim line := fun hmem =>
        hl.noBrace ((Text.trim_isInfix line).subset hmem)
      exact h.step_of_passed ht (EnumTable.step_comment table hl.mark htype fun _ => hbrace) rest
  | none =>
      have hkind : lineKind line = .comment := by
        have hne : (Text.trim line).isEmpty = false := by
          obtain ⟨more, hmore⟩ := hl.mark
          rw [← hmore]
          rfl
        rw [lineKind, hl.undocumented, hne, hmark]
        rfl
      have hlocal : Declaration.isLocal (Text.trim line) = false := by
        obtain ⟨more, hmore⟩ := hl.mark
        rw [← hmore]
        rfl
      obtain ⟨registry, pending, inside⟩ := reader
      obtain rfl : inside = none := ht
      simp only [step, plainLine_eq, hkind, recordLocal_of_not_isLocal hlocal]

/-! ## Blank lines at the end -/

/-- The state with the pending block closed, the class that it declares being documented. -/
def closeBlock (reader : Reader) : Reader :=
  { reader with
    registry := commitClass reader.registry (Block.ofLines reader.pending)
    pending := [] }

theorem closeBlock_of_nil {reader : Reader} (h : reader.pending = []) :
    closeBlock reader = reader := by
  obtain ⟨registry, pending, table⟩ := reader
  obtain rfl : pending = [] := h
  rfl

theorem Steady.closeBlock {reader : Reader} (h : Steady reader) : Steady (closeBlock reader) := by
  refine ⟨fun name table ht => ?_, fun _ => rfl⟩
  have hinside : reader.table = some (name, table) := ht
  rw [closeBlock_of_nil (h.pending (by simp [hinside]))]
  exact h.known name table hinside

/-- A blank line closes the pending block and does nothing else. -/
theorem step_blank {reader : Reader} (h : Steady reader) {line : Text} (hl : Text.trim line = [])
    (rest : List Text) : step reader line rest = closeBlock reader := by
  cases ht : reader.table with
  | some entry =>
      obtain ⟨name, table⟩ := entry
      rw [h.step_of_passed ht (EnumTable.step_blank table hl),
        closeBlock_of_nil (h.pending (by simp [ht]))]
  | none =>
      have hkind : lineKind line = .blank := by
        rw [lineKind, hl]
        rfl
      have hlocal : Declaration.isLocal (Text.trim line) = false := by
        rw [hl]
        rfl
      obtain ⟨registry, pending, inside⟩ := reader
      obtain rfl : inside = none := ht
      simp only [step, plainLine_eq, hkind, recordLocal_of_not_isLocal hlocal]
      rfl

/-- So do any number of blank lines. -/
theorem run_blankLines {reader : Reader} (h : Steady reader) (n : Nat) :
    run reader (List.replicate (n + 1) []) = closeBlock reader := by
  have hclosed (m : Nat) : run (closeBlock reader) (List.replicate m []) = closeBlock reader := by
    induction m with
    | zero => rfl
    | succ m ih =>
        rw [List.replicate_succ, run, step_blank h.closeBlock rfl, closeBlock_of_nil rfl, ih]
  rw [List.replicate_succ, run, step_blank h rfl, hclosed]

/-- Blank lines tell nothing of an open function. -/
theorem sameBody_blankLines (n : Nat) : SameBody (List.replicate n []) [] := by
  intro depth
  induction n with
  | zero => rfl
  | succ n ih => exact ih

theorem mem_names_commitClass (registry : Registry) {block : Block} {decl : ClassDecl}
    (h : block.classDecl = some decl) : decl.name ∈ (commitClass registry block).names := by
  rw [commitClass, h]
  exact (Registry.mem_names_apply _ (.inClass decl.name (.addFields _)) _).mpr (.inl rfl)

/-- Whatever line closes the block of a class, a blank one or code, the class is documented with
what the block says of it; only the values of an enum may come to it. -/
theorem registry_step_of_declared {reader : Reader} {line : Text} {decl : ClassDecl}
    (h : declared? reader line = some decl) (rest : List Text) :
    ∃ values, (step reader line rest).registry =
      (commitClass (recordLocal reader.registry (Text.trim line))
        (Block.ofLines reader.pending)).addClassFields decl.name values := by
  obtain ⟨htable, hcloses, hclass⟩ := closes_of_declared? h
  have hknown := mem_names_commitClass (recordLocal reader.registry (Text.trim line)) hclass
  rw [step, htable]
  simp only [plainLine_eq]
  cases hkind : lineKind line with
  | documentation => simp [hkind, LineKind.closes] at hcloses
  | comment => simp [hkind, LineKind.closes] at hcloses
  | blank => exact ⟨[], (Registry.addClassFields_nil hknown).symm⟩
  | code =>
      simp only [codeLine, commitBlock, hclass]
      cases decl.isEnum with
      | true => exact ⟨_, rfl⟩
      | false => exact ⟨[], (Registry.addClassFields_nil hknown).symm⟩

/-- The class that a block declares, with what the block says of it. -/
def extendClass (block : Block) (doc : ClassDoc) : ClassDoc :=
  { doc.describe block.description with
    fields := doc.fields ++ block.fields.map FieldDoc.finish }

theorem commitClass_eq_onClass (registry : Registry) {block : Block} {decl : ClassDecl}
    (h : block.classDecl = some decl) :
    commitClass registry block = registry.onClass decl.name (extendClass block) := by
  have hname (doc : ClassDoc) : (doc.describe block.description).name = doc.name :=
    ClassChange.apply_name (.describe block.description) doc
  have hfields (doc : ClassDoc) : (doc.describe block.description).fields = doc.fields :=
    (ClassChange.apply_fields (.describe block.description) doc).trans (List.append_nil _)
  rw [commitClass, h]
  simp only [Registry.describe, Registry.addClassFields, Registry.onClass,
    Registry.updateClass_updateClass hname]
  congr 2
  funext doc
  simp only [Function.comp_apply, extendClass, hfields]

/-- A block that tells nothing new: it declares no class, or else one that is known, without
fields and with no description but the one that the class has. -/
def TellsNothingNew (registry : Registry) (block : Block) : Prop :=
  ∀ decl ∈ block.classDecl, ∃ doc ∈ registry.findClass? decl.name,
    block.fields = [] ∧ ∀ text ∈ cleanDescription block.description, doc.description = some text

theorem extendClass_eq_self_iff (block : Block) (doc : ClassDoc) :
    extendClass block doc = doc ↔
      block.fields = [] ∧
        ∀ text ∈ cleanDescription block.description, doc.description = some text := by
  obtain ⟨name, description, fields, functions⟩ := doc
  rw [extendClass, ClassDoc.describe]
  cases cleanDescription block.description with
  | none => simp
  | some text => simp [and_comm, eq_comm]

/-- Closing a block changes nothing exactly if the block tells nothing new. -/
theorem commitClass_eq_self_iff (registry : Registry) (block : Block) :
    commitClass registry block = registry ↔ TellsNothingNew registry block := by
  rw [TellsNothingNew]
  cases hclass : block.classDecl with
  | none => simp [commitClass, hclass]
  | some decl =>
      obtain ⟨classes, functions, fields, locals⟩ := registry
      simp [commitClass_eq_onClass _ hclass, Registry.onClass, Registry.updateClass_eq_self_iff,
        extendClass_eq_self_iff, Registry.findClass?]

/-- The documentation tells whether closing a block has changed anything. -/
theorem flatten_commitClass_iff {registry : Registry} {functions : List FunctionDoc}
    (h : registry.functions = functions.map FunctionDoc.draft) (block : Block)
    (namespaceName : Text) :
    (commitClass registry block).flatten namespaceName = registry.flatten namespaceName ↔
      TellsNothingNew registry block := by
  rw [← commitClass_eq_self_iff]
  cases hclass : block.classDecl with
  | none => simp [commitClass, hclass]
  | some decl =>
      rw [commitClass_eq_onClass registry hclass]
      exact Registry.flatten_withClasses_iff h _ namespaceName

end Reader

/-! ## Whole sources -/

/-- **Blanks at the ends of lines do not matter.** Two sources whose lines are the same once they
are trimmed have the same documentation. -/
theorem parse_of_trimmed_lines {code code' : Text}
    (h : (Text.lines code).map Text.trim = (Text.lines code').map Text.trim)
    (namespaceName : Text) : parse code namespaceName = parse code' namespaceName := by
  rw [parse, parse, Reader.run_of_trim h]

/-- An enum and a function, without a blank at the end of any line. -/
def bareSource : Text :=
  "---@enum Mode\nMode =\n\x7b\nFAST = 1,\n\x7d\n".toList ++
    "--- Runs.\nfunction run()\nreturn 1\nend".toList

/-- The same source with blanks at both ends of its lines, and with other line breaks. -/
def spacedSource : Text :=
  "\t---@enum Mode \r\nMode = \r\n \x7b\n\t FAST = 1,\t\n \x7d \n".toList ++
    "  --- Runs. \n function run()\x0b  return 1\n\u3000end \n".toList

/-- The two sources have the same documentation. -/
theorem parse_bareSource_eq_spacedSource :
    (Text.lines bareSource).map Text.trim = (Text.lines spacedSource).map Text.trim ∧
      parse bareSource defaultNamespace = parse spacedSource defaultNamespace ∧
      parse spacedSource defaultNamespace =
        .ok ⟨[⟨defaultNamespace,
          [⟨"Mode".toList, none, [⟨"FAST".toList, anyType, false, none⟩], []⟩],
          [⟨"run".toList, true, some "Runs.".toList, [], [⟨anyType, [], none⟩]⟩], []⟩]⟩ := by
  have hlines : (Text.lines bareSource).map Text.trim =
      (Text.lines spacedSource).map Text.trim := by decide +kernel
  exact ⟨hlines, parse_of_trimmed_lines hlines defaultNamespace, by decide +kernel⟩

/-- **Comments do not matter.** A line that is all comment can be put between any two lines of a
source, also inside of a function, of an enum table or of a block, and the documentation stays the
same. -/
theorem parse_insert_comment {code code' : Text} {before after : List Text} {line : Text}
    (hcode : Text.lines code = before ++ after)
    (hcode' : Text.lines code' = before ++ line :: after) (hl : Reader.IsPlainComment line)
    (namespaceName : Text) : parse code' namespaceName = parse code namespaceName := by
  have hpassed : commentMarker.isPrefixOf (Text.trim line) = true :=
    List.isPrefixOf_iff_prefix.mpr hl.mark
  have hbefore : Reader.advance {} before (line :: after) = Reader.advance {} before after :=
    Reader.advance_of_sameBody (.comment hpassed after) {} before
  have hrun : Reader.run {} (before ++ line :: after) = Reader.run {} (before ++ after) := by
    rw [Reader.run_append, Reader.run_append, hbefore, Reader.run,
      Reader.step_comment (Reader.steady_advance before after) hl]
  rw [parse, parse, hcode, hcode', hrun]

/-- A comment between the code line of an enum and the brace that begins its table. -/
theorem parse_comment_before_table :
    let before := ["---@enum Mode".toList, "Mode =".toList]
    let after := ["\x7b".toList, "FAST = 1,".toList, "\x7d".toList]
    let line := "  -- modes \x7d".toList
    let code := Text.join ['\n'] (before ++ after)
    let code' := Text.join ['\n'] (before ++ line :: after)
    Text.lines code = before ++ after ∧ Text.lines code' = before ++ line :: after ∧
      Reader.IsPlainComment line ∧
      parse code' defaultNamespace = parse code defaultNamespace ∧
      parse code' defaultNamespace = .ok ⟨[⟨defaultNamespace,
        [⟨"Mode".toList, none, [⟨"FAST".toList, anyType, false, none⟩], []⟩], [], []⟩]⟩ := by
  intro before after line code code'
  have hcode : Text.lines code = before ++ after := by decide
  have hcode' : Text.lines code' = before ++ line :: after := by decide
  have hline : Reader.IsPlainComment line := ⟨by decide, by decide, by decide⟩
  exact ⟨hcode, hcode', hline, parse_insert_comment hcode hcode' hline defaultNamespace,
    by decide +kernel⟩

/-- **Blank lines at the end of a source** close its last block and do nothing else: the
documentation stays the same exactly if that block tells nothing new. Any other line that closes the
block, be it blank or code, documents the class of the block as well. -/
theorem parse_append_blankLines (code namespaceName : Text) :
    let last := Reader.run {} (Text.lines code)
    let block := Block.ofLines last.pending
    parse (code ++ "\n\n".toList) namespaceName =
        (Reader.commitClass last.registry block).flatten namespaceName ∧
      (parse (code ++ "\n\n".toList) namespaceName = parse code namespaceName ↔
        Reader.TellsNothingNew last.registry block) ∧
      ∀ line rest, (Reader.lineKind line).closes = true → ∀ decl ∈ block.classDecl,
        let reader := Reader.advance {} (Text.lines code) (line :: rest)
        ∃ values, (reader.step line rest).registry =
          (Reader.commitClass (Reader.recordLocal reader.registry (Text.trim line))
            block).addClassFields decl.name values := by
  intro last block
  have hlast : last = Reader.advance {} (Text.lines code) [] := Reader.run_eq_advance _ _
  have hsteady : Reader.Steady last := hlast ▸ Reader.steady_advance _ _
  have hparse : parse (code ++ "\n\n".toList) namespaceName =
      (Reader.commitClass last.registry block).flatten namespaceName := by
    obtain ⟨n, hlines⟩ := Text.lines_append_lineFeeds code
    rw [parse, hlines, Reader.run_append,
      Reader.advance_of_sameBody (Reader.sameBody_blankLines (n + 1)), ← hlast,
      Reader.run_blankLines hsteady]
    rfl
  refine ⟨hparse, ?_, fun line rest hcloses decl hdecl => ?_⟩
  · obtain ⟨functions, hfunctions, -, -⟩ := exists_parse code namespaceName
    rw [hparse, parse]
    exact Reader.flatten_commitClass_iff hfunctions block namespaceName
  · intro reader
    have hstart : Reader.Agree {} {} := ⟨.empty, rfl, rfl⟩
    have hagree : Reader.Agree last reader :=
      hlast ▸ Reader.agree_advance hstart (Text.lines code) [] (line :: rest)
    have htable : last.table = none := hsteady.table_of_classDecl hdecl
    have hdeclared : Reader.declared? reader line = some decl := by
      rw [Reader.declared?_of_closes (hagree.table.trans htable) hcloses, hagree.pending]
      exact hdecl
    have hblock : Block.ofLines reader.pending = block := congrArg Block.ofLines hagree.pending
    rw [← hblock]
    exact Reader.registry_step_of_declared hdeclared rest

/-- A source that ends in the block of a class. -/
def unclosedClass : Text := "---@class Settings Global settings\n---@field volume number".toList

/-- The class is not documented, and it is if blank lines follow. -/
theorem unclosedClass_undocumented :
    parse unclosedClass defaultNamespace = .ok ⟨[⟨defaultNamespace, [], [], []⟩]⟩ ∧
      parse (unclosedClass ++ "\n\n".toList) defaultNamespace =
        .ok ⟨[⟨defaultNamespace, [⟨"Settings".toList, some "Global settings".toList,
          [⟨"volume".toList, "number".toList, false, none⟩], []⟩], [], []⟩]⟩ ∧
      parse unclosedClass defaultNamespace ≠
        parse (unclosedClass ++ "\n\n".toList) defaultNamespace := by
  decide +kernel

end LuaReference
