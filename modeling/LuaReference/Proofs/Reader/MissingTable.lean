import LuaReference.Proofs.Reader.Layout
import LuaReference.Proofs.Reader.TableComments
import LuaReference.Proofs.Reader.TableScan
import LuaReference.Proofs.Returns.Window

set_option autoImplicit false

/-! # An enum without a table

The line behind the comments of an enum need not begin a table. The reader then looks for one on the
lines behind it, and reads them as nothing else: they are passed over up to the first one with an
opening brace, or one that begins with a closing brace (`readFrom_missing`). Nothing else ends the
search. It may take up the lines of a whole file, and the table that it finds may be that of another
declaration (`parse_missingTable`).

A blank line in place of the line of code closes the comments as well, and the reader goes on behind
it at once. So the two sources tell what the search costs.
-/

namespace LuaReference

/-! ## The search for a table -/

namespace EnumTable

/-- Whether a line is passed over by the search for a table: it has no opening brace and does not
begin with a closing one. -/
def isPassed (line : Text) : Bool := '\x7b' ∉ line && !startsWithClose (Text.trim line)

theorem openingLine?_eq_none {line : Text} (h : '\x7b' ∉ line) (types : List Text) :
    openingLine? types line = none := by
  rw [← Option.not_isSome_iff_eq_none, isSome_openingLine?]
  exact h

theorem start_of_not_mem {line : Text} (h : '\x7b' ∉ line) : start line = ⟨[], some {}⟩ := by
  rw [start, openingLine?_eq_none h, Option.getD_none]

/-- A table that is still to come begins on a line with a brace as on the first one. -/
theorem step_of_mem {line : Text} (h : '\x7b' ∈ line) : step {} line = start line := by
  obtain ⟨progress, hprogress⟩ := Option.isSome_iff_exists.mp ((isSome_openingLine? [] line).mpr h)
  simp only [start, step, openingLine?_trim, hprogress, Option.getD_some]

/-- On a line without one it does not begin, or never will. -/
theorem step_of_not_mem {line : Text} (h : '\x7b' ∉ line) :
    step {} line = ⟨[], if startsWithClose (Text.trim line) then none else some {}⟩ := by
  simp only [step, openingLine?_trim, openingLine?_eq_none h]

/-- The search takes up the lines that are passed over. -/
theorem readFrom_missing (lines : List Text) :
    readFrom {} lines =
      match lines.dropWhile isPassed with
      | [] => ([], [])
      | stop :: behind => if '\x7b' ∈ stop then read stop behind else ([], behind) := by
  induction lines with
  | nil => rfl
  | cons line rest ih =>
      by_cases hbrace : '\x7b' ∈ line
      · have hstop : ¬ isPassed line = true := by simp [isPassed, hbrace]
        rw [List.dropWhile_cons_of_neg hstop]
        simp only [if_pos hbrace, readFrom, step_of_mem hbrace, read]
      · cases hclose : startsWithClose (Text.trim line) with
        | true =>
            have hstop : ¬ isPassed line = true := by simp [isPassed, hclose]
            rw [List.dropWhile_cons_of_neg hstop]
            simp [readFrom, step_of_not_mem hbrace, hclose, hbrace]
        | false =>
            have hpassed : isPassed line = true := by simp [isPassed, hbrace, hclose]
            rw [List.dropWhile_cons_of_pos hpassed, ← ih]
            simp [readFrom, step_of_not_mem hbrace, hclose]

theorem read_missing {first : Text} (h : '\x7b' ∉ first) (lines : List Text) :
    read first lines = readFrom {} lines := by
  simp [read, start_of_not_mem h]

end EnumTable

/-! ## The reader behind the enum -/

namespace Reader

open EnumTable (isPassed)

/-- What is documented behind an enum without a table, where the search for one stops in front of
`lines`: the table of the line that it stops on, or what stands behind a closing brace. -/
def afterSearch (registry : Registry) (name : Text) : List Text → Registry
  | [] => registry
  | stop :: behind =>
      if '\x7b' ∈ stop then (run (startTable registry name stop) behind).registry
      else (run { registry } behind).registry

/-- A table that is never found adds nothing, and one that is found adds its values. -/
theorem registry_run_missing {registry : Registry} {name : Text} (hname : name ∈ registry.names)
    {first : Text} (hbrace : '\x7b' ∉ first) (lines : List Text) :
    (run (startTable registry name first) lines).registry =
      afterSearch registry name (lines.dropWhile isPassed) := by
  rw [registry_run_startTable, EnumTable.read_missing hbrace, EnumTable.readFrom_missing]
  cases lines.dropWhile isPassed with
  | nil => simp only [Registry.addClassFields_nil hname, run, afterSearch]
  | cons stop behind =>
      by_cases hstop : '\x7b' ∈ stop
      · simp only [afterSearch, if_pos hstop, registry_run_startTable]
      · simp only [afterSearch, if_neg hstop, Registry.addClassFields_nil hname]

/-- A line of code behind the comments of an enum, that declares nothing local. -/
structure ClosesEnum (reader : Reader) (line : Text) (decl : ClassDecl) : Prop where
  table : reader.table = none
  declared : (Block.ofLines reader.pending).classDecl = some decl
  isEnum : decl.isEnum = true
  isCode : lineKind line = .code
  notLocal : Declaration.isLocal (Text.trim line) = false

/-- On such a line the table begins, or it is still to come. -/
theorem ClosesEnum.step {reader : Reader} {line : Text} {decl : ClassDecl}
    (h : ClosesEnum reader line decl) (rest : List Text) :
    step reader line rest =
      startTable (commitClass reader.registry (Block.ofLines reader.pending)) decl.name
        (Text.trim line) := by
  rw [Reader.step, h.table]
  simp only [plainLine_eq, h.isCode, codeLine, commitBlock, h.declared, h.isEnum, if_true,
    recordLocal_of_not_isLocal h.notLocal]

/-- A blank line closes the comments, and nothing is looked for behind it. -/
theorem step_nil {reader : Reader} (h : reader.table = none) (rest : List Text) :
    step reader [] rest =
      { registry := commitClass reader.registry (Block.ofLines reader.pending) } := by
  have hkind : lineKind [] = .blank := by decide
  have hlocal : Declaration.isLocal (Text.trim []) = false := by decide
  rw [step, h]
  simp only [plainLine_eq, hkind, recordLocal_of_not_isLocal hlocal]

end Reader

/-! ## Whole sources -/

/-- A line without a word that counts tells nothing of the functions in front of it. -/
theorem Returns.sameBody_of_silent {line : Text} (hopens : opens line = false)
    (hcloses : closes line = false) (hgives : returnsValue (Code.ofLine line) = false)
    (rest : List Text) : SameBody (line :: rest) rest := by
  intro depth
  rw [inBody_cons_eq, hopens, hcloses, hgives]
  rfl

open Returns (SameBody)
open Reader

/-- **An enum without a table takes up what stands behind it.** Let a line of code without an
opening brace close the comments of an enum, and compare the source with the one that has a blank
line there instead; the line may be any that tells the functions in front of it no more than a blank
one. With the blank line, what is documented is the enum and then what stands behind it. With the
line itself the lines behind it are passed over as long as none has an opening brace or begins with
a closing one, and what is documented is the enum and then what stands behind the search: nothing,
the table of the line with a brace and what follows that, or what follows the closing brace. The two
agree if the enum gets no values and the lines that are taken up for it would change nothing. -/
theorem parse_missingTable {code code' line : Text} {front rest : List Text} {decl : ClassDecl}
    (hcode : Text.lines code = front ++ line :: rest)
    (hcode' : Text.lines code' = front ++ [] :: rest)
    (hsame : SameBody (line :: rest) ([] :: rest))
    (hcloses : ClosesEnum (advance {} front (line :: rest)) line decl) (hbrace : '\x7b' ∉ line)
    (namespaceName : Text) :
    let reader := advance {} front (line :: rest)
    let registry := commitClass reader.registry (Block.ofLines reader.pending)
    parse code namespaceName =
        (afterSearch registry decl.name (rest.dropWhile EnumTable.isPassed)).flatten
          namespaceName ∧
      parse code' namespaceName = (run { registry } rest).registry.flatten namespaceName ∧
      ∀ taken behind, rest = taken ++ behind → EnumTable.read line rest = ([], behind) →
        advance { registry } taken behind = { registry } →
          parse code namespaceName = parse code' namespaceName := by
  intro reader registry
  have hname : decl.name ∈ registry.names := mem_names_commitClass _ hcloses.declared
  have htrim : '\x7b' ∉ Text.trim line := fun h => hbrace ((Text.trim_isInfix line).subset h)
  have hfull : parse code namespaceName =
      (run (startTable registry decl.name (Text.trim line)) rest).registry.flatten
        namespaceName := by
    rw [parse, hcode, run_append, ← hcloses.step rest]
    rfl
  have hblank : parse code' namespaceName =
      (run { registry } rest).registry.flatten namespaceName := by
    rw [parse, hcode', run_append, ← Reader.advance_of_sameBody hsame, run, step_nil hcloses.table]
  refine ⟨?_, hblank, fun taken behind hrest hread hnothing => ?_⟩
  · rw [hfull, registry_run_missing hname htrim]
  · have htable : EnumTable.read (Text.trim line) rest = ([], behind) := by
      rw [EnumTable.read_missing htrim, ← EnumTable.read_missing hbrace, hread]
    rw [hfull, hblank, registry_run_startTable, htable, Registry.addClassFields_nil hname]
    calc (run { registry } behind).registry.flatten namespaceName
        = (run (advance { registry } taken behind) behind).registry.flatten namespaceName := by
          rw [hnothing]
      _ = (run { registry } rest).registry.flatten namespaceName := by rw [← run_append, ← hrest]

/-- The lines behind an enum. -/
def behindLevel : List Text :=
  ["function log() end".toList, "Config = \x7b DEBUG = 1 \x7d".toList, "function warn() end".toList]

/-- The enum with a line of its own. -/
def levelSource (line : Text) : Text :=
  "---@enum Level\n".toList ++ line ++
    "\nfunction log() end\nConfig = \x7b DEBUG = 1 \x7d\nfunction warn() end".toList

/-- The function in front of the next table is lost, and its entry is taken for one of the enum. -/
theorem parse_levelSource :
    let front := ["---@enum Level".toList]
    let line := "Level = require(\"level\")".toList
    let log : FunctionDoc := { name := "log".toList }
    let warn : FunctionDoc := { name := "warn".toList }
    let debug : FieldDoc := { name := "DEBUG".toList, type := anyType }
    Text.lines (levelSource line) = front ++ line :: behindLevel ∧
      Text.lines (levelSource []) = front ++ [] :: behindLevel ∧
      SameBody (line :: behindLevel) ([] :: behindLevel) ∧
      ClosesEnum (advance {} front (line :: behindLevel)) line ⟨"Level".toList, none, true⟩ ∧
      '\x7b' ∉ line ∧
      parse (levelSource line) defaultNamespace = .ok ⟨[
        { name := defaultNamespace
          classes := [{ name := "Level".toList, fields := [debug] }]
          functions := [warn] }]⟩ ∧
      parse (levelSource []) defaultNamespace = .ok ⟨[
        { name := defaultNamespace
          classes := [{ name := "Level".toList }]
          functions := [log, warn] }]⟩ := by
  intro front line log warn debug
  have hcode : Text.lines (levelSource line) = front ++ line :: behindLevel := by decide +kernel
  have hblank : Text.lines (levelSource []) = front ++ [] :: behindLevel := by decide +kernel
  have hline : SameBody (line :: behindLevel) behindLevel :=
    Returns.sameBody_of_silent (by decide +kernel) (by decide +kernel) (by decide +kernel) _
  have hnil : SameBody ([] :: behindLevel) behindLevel :=
    Returns.sameBody_of_silent (by decide) (by decide) (by decide) _
  have hsame : SameBody (line :: behindLevel) ([] :: behindLevel) := fun depth =>
    (hline depth).trans (hnil depth).symm
  have hcloses : ClosesEnum (advance {} front (line :: behindLevel)) line
      ⟨"Level".toList, none, true⟩ :=
    ⟨by decide +kernel, by decide +kernel, rfl, by decide +kernel, by decide +kernel⟩
  have hbrace : '\x7b' ∉ line := by decide
  obtain ⟨hparse, hparse', -⟩ :=
    parse_missingTable hcode hblank hsame hcloses hbrace defaultNamespace
  refine ⟨hcode, hblank, hsame, hcloses, hbrace, hparse.trans ?_, hparse'.trans ?_⟩
  · decide +kernel
  · decide +kernel

/-- Without a brace further down the source is read to its end for nothing. -/
theorem parse_requiredEnum :
    let required := "---@enum E\nE = require(\"e\")\nfunction f() end".toList
    let blank := "---@enum E\n\nfunction f() end".toList
    let enum : ClassDoc := { name := "E".toList }
    parse required defaultNamespace =
        .ok ⟨[{ name := defaultNamespace, classes := [enum] }]⟩ ∧
      parse blank defaultNamespace = .ok ⟨[
        { name := defaultNamespace, classes := [enum], functions := [{ name := "f".toList }] }]⟩ ∧
      parse required defaultNamespace ≠ parse blank defaultNamespace := by
  decide +kernel

end LuaReference
