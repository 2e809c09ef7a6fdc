import LuaReference.Proofs.Reader.Interpreted
import Mathlib.Data.List.DropRight

set_option autoImplicit false

/-! # Each documentation comment is used once

The blocks that are closed while a source is read, one behind the other, and the block that is
pending at the end make up the documentation comments that are read outside of enum tables
(`documentation_used_once`). They are the blocks that are interpreted, each once and in this order
(`Interpreted.run_read`). A line closes exactly the comments that are read since the line in
front of it that closes a block, so that no comment is used twice or behind a blank line; what
the line documents, it takes from these comments and from itself. The first part is an invariant of
single lines (`pending_step`) summed up over a run, the last one is the invariant of the pending
block itself (`pending_advance`).
-/

namespace LuaReference.Reader

/-! ## What is read, and what is closed -/

/-- The documentation comment that a line holds. -/
def docComment? (line : Text) : Option Text :=
  if lineKind line = .documentation then some (Text.trim line) else none

/-- The lines of a run that are read outside of enum tables. -/
def plainLines (reader : Reader) (lines rest : List Text) : List Text :=
  ((visits reader lines rest).filter (·.1.table.isNone)).map Prod.snd

/-- The blocks that the lines of a run close. -/
def closedBlocks (reader : Reader) (lines rest : List Text) : List (List Text) :=
  (visits reader lines rest).filterMap fun visit => closedBlock? visit.1 visit.2

/-- The lines behind the last one that closes a block. -/
def sinceClosed (lines : List Text) : List Text :=
  lines.rtakeWhile fun line => !(lineKind line).closes

theorem commentMarker_of_isDocComment {line : Text} (h : Tag.isDocComment line = true) :
    commentMarker <+: line := by
  rw [Tag.isDocComment, Bool.and_eq_true] at h
  have hmarker : commentMarker <+: docMarker := by decide
  exact hmarker.trans (List.isPrefixOf_iff_prefix.mp h.1)

/-- Of all lines just the comments leave the pending block open, documentation or not. -/
theorem closes_lineKind (line : Text) :
    (lineKind line).closes = !commentMarker.isPrefixOf (Text.trim line) := by
  rw [lineKind]
  by_cases hdoc : Tag.isDocComment (Text.trim line) = true
  · rw [if_pos hdoc, List.isPrefixOf_iff_prefix.mpr (commentMarker_of_isDocComment hdoc)]
    rfl
  · rw [if_neg hdoc]
    by_cases hblank : (Text.trim line).isEmpty = true
    · rw [if_pos hblank, List.isEmpty_iff.mp hblank]
      rfl
    · rw [if_neg hblank]
      cases commentMarker.isPrefixOf (Text.trim line) <;> rfl

/-- A line of code is one that is neither blank nor a comment. -/
theorem lineKind_eq_code_iff (line : Text) :
    lineKind line = .code ↔
      Text.trim line ≠ [] ∧ commentMarker.isPrefixOf (Text.trim line) = false := by
  constructor
  · intro h
    have hcloses := closes_lineKind line
    rw [h] at hcloses
    refine ⟨fun hnil => ?_, by simpa [LineKind.closes] using hcloses⟩
    rw [lineKind, hnil] at h
    cases h
  · rintro ⟨hne, hmark⟩
    have hdoc : ¬ Tag.isDocComment (Text.trim line) = true := by
      intro hdoc
      rw [List.isPrefixOf_iff_prefix.mpr (commentMarker_of_isDocComment hdoc)] at hmark
      cases hmark
    rw [lineKind, if_neg hdoc, if_neg (by simpa using hne), hmark]
    rfl

theorem visits_append (reader : Reader) (first second rest : List Text) :
    visits reader (first ++ second) rest =
      visits reader first (second ++ rest) ++
        visits (advance reader first (second ++ rest)) second rest := by
  induction first generalizing reader with
  | nil => rfl
  | cons line more ih =>
      rw [List.cons_append, visits, visits, ih, List.append_assoc, List.cons_append, advance]

theorem plainLines_append (reader : Reader) (first second rest : List Text) :
    plainLines reader (first ++ second) rest =
      plainLines reader first (second ++ rest) ++
        plainLines (advance reader first (second ++ rest)) second rest := by
  rw [plainLines, visits_append, List.filter_append, List.map_append]
  rfl

theorem plainLines_cons (reader : Reader) (line : Text) (more rest : List Text) :
    plainLines reader (line :: more) rest =
      (if reader.table.isNone then [line] else []) ++
        plainLines (step reader line (more ++ rest)) more rest := by
  rw [plainLines, visits, List.filter_cons]
  split <;> rfl

theorem closedBlocks_cons (reader : Reader) (line : Text) (more rest : List Text) :
    closedBlocks reader (line :: more) rest =
      (closedBlock? reader line).toList ++
        closedBlocks (step reader line (more ++ rest)) more rest := by
  rw [closedBlocks, visits, List.filterMap_cons]
  cases closedBlock? reader line <;> rfl

/-! ## One line -/

/-- A line inside of an enum table leaves the pending block alone. -/
theorem pending_step_of_table {reader : Reader} (h : reader.table ≠ none) (line : Text)
    (rest : List Text) : (step reader line rest).pending = reader.pending := by
  cases ht : reader.table with
  | none => exact absurd ht h
  | some entry =>
      rw [step, ht]
      rfl

theorem pending_codeLine (registry : Registry) (pending : List Text) (line : Text)
    (rest : List Text) : (codeLine registry pending line rest).pending = [] := by
  rw [codeLine, commitBlock]
  split
  · split <;> rfl
  · rfl
  · rfl

/-- Any other line empties the pending block or leaves it, and adds itself if it is a
documentation comment. -/
theorem pending_step {reader : Reader} (h : reader.table = none) (line : Text)
    (rest : List Text) :
    (step reader line rest).pending =
      (if (lineKind line).closes then [] else reader.pending) ++ (docComment? line).toList := by
  rw [step, h]
  simp only [plainLine_eq, docComment?]
  cases lineKind line with
  | documentation => rfl
  | comment => exact (List.append_nil _).symm
  | blank => rfl
  | code => exact pending_codeLine _ _ _ _

/-- The block that a line closes and the one that is pending behind it make up the one that is
pending in front of it and the line. -/
theorem closed_append_pending (reader : Reader) (line : Text) (rest : List Text) :
    (closedBlock? reader line).getD [] ++ (step reader line rest).pending =
      reader.pending ++
        (if reader.table.isNone then [line] else []).filterMap docComment? := by
  cases ht : reader.table with
  | some entry =>
      rw [pending_step_of_table (by simp [ht]), closedBlock?, ht]
      exact (List.append_nil _).symm
  | none =>
      have hdoc : [line].filterMap docComment? = (docComment? line).toList := by
        rw [List.filterMap_cons]
        cases docComment? line <;> rfl
      rw [pending_step ht, closedBlock?, ht, Option.isNone_none, if_pos rfl, hdoc,
        ← List.append_assoc]
      congr 1
      cases (lineKind line).closes with
      | false => rfl
      | true =>
          cases reader.pending with
          | nil => rfl
          | cons comment comments => exact List.append_nil _

/-- What a line does besides to the pending block depends on that block only as far as it closes
it. -/
theorem step_of_closedBlock (reader : Reader) (line : Text) (rest : List Text) :
    let handed := { reader with pending := (closedBlock? reader line).getD [] }
    (step reader line rest).registry = (step handed line rest).registry ∧
      (step reader line rest).table = (step handed line rest).table := by
  intro handed
  cases ht : reader.table with
  | some entry =>
      simp only [handed, step, ht]
      exact ⟨rfl, rfl⟩
  | none =>
      simp only [handed, step, ht, plainLine_eq, closedBlock?]
      cases hk : lineKind line with
      | documentation => exact ⟨rfl, rfl⟩
      | comment => exact ⟨rfl, rfl⟩
      | blank => cases reader.pending <;> exact ⟨rfl, rfl⟩
      | code => cases reader.pending <;> exact ⟨rfl, rfl⟩

/-! ## Runs -/

/-- The blocks that a run closes and the one that is pending behind it make up the one that is
pending in front of it and the documentation comments of the run. -/
theorem closedBlocks_append_pending (reader : Reader) (lines rest : List Text) :
    (closedBlocks reader lines rest).flatten ++ (advance reader lines rest).pending =
      reader.pending ++ (plainLines reader lines rest).filterMap docComment? := by
  induction lines generalizing reader with
  | nil => exact (List.append_nil _).symm
  | cons line more ih =>
      have hhead : (closedBlock? reader line).toList.flatten =
          (closedBlock? reader line).getD [] := by
        cases closedBlock? reader line <;> simp
      rw [closedBlocks_cons, List.flatten_append, List.append_assoc, advance, ih, hhead,
        plainLines_cons, List.filterMap_append, ← List.append_assoc, closed_append_pending,
        List.append_assoc]

theorem docComment?_of_closes {line : Text} (h : (lineKind line).closes = true) :
    docComment? line = none := by
  rw [docComment?, if_neg]
  intro hk
  rw [hk] at h
  cases h

/-- The documentation comments behind the last line that closes a block, with one more line. -/
theorem docComments_sinceClosed_concat (lines : List Text) (line : Text) :
    (sinceClosed (lines ++ [line])).filterMap docComment? =
      (if (lineKind line).closes then [] else (sinceClosed lines).filterMap docComment?) ++
        (docComment? line).toList := by
  rw [sinceClosed, List.rtakeWhile_concat]
  cases hc : (lineKind line).closes with
  | true =>
      rw [docComment?_of_closes hc]
      rfl
  | false =>
      show ((sinceClosed lines) ++ [line]).filterMap docComment? = _
      rw [List.filterMap_append, List.filterMap_cons]
      cases docComment? line <;> rfl

/-- The pending block holds the documentation comments behind the last line that closed one. -/
theorem pending_advance (lines rest : List Text) :
    (advance {} lines rest).pending =
      (sinceClosed (plainLines {} lines rest)).filterMap docComment? := by
  -- the induction takes the last line off, since what is pending depends on the lines in front
  induction lines using List.reverseRecOn generalizing rest with
  | nil => rfl
  | append_singleton before line ih =>
      have hfront := ih (line :: rest)
      rw [advance_append, plainLines_append, List.singleton_append]
      show (step (advance {} before (line :: rest)) line rest).pending = _
      cases ht : (advance {} before (line :: rest)).table with
      | some entry =>
          have hline : plainLines (advance {} before (line :: rest)) [line] rest = [] := by
            rw [plainLines_cons, ht]
            rfl
          rw [pending_step_of_table (by simp [ht]), hline, List.append_nil, hfront]
      | none =>
          have hline : plainLines (advance {} before (line :: rest)) [line] rest = [line] := by
            rw [plainLines_cons, ht]
            rfl
          rw [pending_step ht, hline, docComments_sinceClosed_concat, hfront]

/-- **The blocks that a run closes are the blocks that it interprets**, each once and in their
order. -/
theorem Interpreted.run_read (reader : Reader) (lines : List Text) :
    (Interpreted.read reader lines).run =
      (Reader.run reader lines, closedBlocks reader lines []) := by
  induction lines generalizing reader with
  | nil => rfl
  | cons line more ih =>
      have hread : (Interpreted.read reader (line :: more)).run =
          let (next, block) := (Interpreted.step reader line more).run
          let (last, blocks) := (Interpreted.read next more).run
          (last, block ++ blocks) := rfl
      rw [hread, Interpreted.run_step]
      simp only [ih, closedBlocks_cons, List.append_nil]
      rfl

/-- Outside of enum tables a line documents what the pending block and the line itself declare, if
it closes the block, and nothing otherwise. -/
theorem step_of_table_eq_none {reader : Reader} (h : reader.table = none) (line : Text)
    (rest : List Text) :
    let registry := recordLocal reader.registry (Text.trim line)
    let block := Block.ofLines reader.pending
    (lineKind line = .code →
        step reader line rest = commitBlock registry block (Text.trim line) rest) ∧
      (lineKind line = .blank →
        step reader line rest = { registry := commitClass registry block }) ∧
      ((lineKind line).closes = false →
        (step reader line rest).registry = registry ∧ (step reader line rest).table = none) := by
  intro registry block
  rw [step, h]
  simp only [plainLine_eq]
  refine ⟨fun hk => ?_, fun hk => ?_, fun hcloses => ?_⟩
  · rw [hk, codeLine]
  · rw [hk]
  · cases hk : lineKind line with
    | documentation => exact ⟨rfl, rfl⟩
    | comment => exact ⟨rfl, rfl⟩
    | blank => rw [hk] at hcloses; cases hcloses
    | code => rw [hk] at hcloses; cases hcloses

/-- **Each documentation comment is used once, for the line behind it.** The blocks that are
closed while a source is read, and then the block that is pending at the end, are the documentation
comments that are read, in their order; and the closed blocks are the ones that are interpreted. At
each line, a block is closed if the line is a blank one or code, and there are documentation
comments behind the last line of that sort; the block is made of these, and interpreted there. A
line of code documents what this block and the line itself declare, a blank line the class that the
block declares, and a comment nothing. Apart from what stays pending, a line does what it does with
this block alone. -/
theorem documentation_used_once (code : Text) :
    (closedBlocks {} (Text.lines code) []).flatten ++ (run {} (Text.lines code)).pending =
        (plainLines {} (Text.lines code) []).filterMap docComment? ∧
      (Interpreted.read {} (Text.lines code)).run =
        (run {} (Text.lines code), closedBlocks {} (Text.lines code) []) ∧
      ∀ before line after, Text.lines code = before ++ line :: after →
        let reader := advance {} before (line :: after)
        let comments := (sinceClosed (plainLines {} before (line :: after))).filterMap docComment?
        let registry := recordLocal reader.registry (Text.trim line)
        let handed := { reader with pending := (closedBlock? reader line).getD [] }
        run {} (Text.lines code) = run (step reader line after) after ∧
          (∀ block, closedBlock? reader line = some block ↔
            (reader.table = none ∧ (lineKind line).closes = true) ∧
              comments ≠ [] ∧ block = comments) ∧
          (Interpreted.step reader line after).run =
            (step reader line after, (closedBlock? reader line).toList) ∧
          (reader.table = none →
            (lineKind line = .code → step reader line after =
              commitBlock registry (Block.ofLines comments) (Text.trim line) after) ∧
            (lineKind line = .blank → step reader line after =
              { registry := commitClass registry (Block.ofLines comments) }) ∧
            ((lineKind line).closes = false →
              (step reader line after).registry = registry ∧
                (step reader line after).table = none)) ∧
          (step reader line after).registry = (step handed line after).registry ∧
          (step reader line after).table = (step handed line after).table := by
  refine ⟨?_, Interpreted.run_read {} _, fun before line after hsplit => ?_⟩
  · rw [run_eq_advance, closedBlocks_append_pending]
    rfl
  · intro reader comments registry handed
    have hpending : reader.pending = comments := pending_advance before (line :: after)
    refine ⟨?_, fun block => ?_, Interpreted.run_step reader line after, fun htable => ?_,
      step_of_closedBlock reader line after⟩
    · rw [hsplit, run_append]
      rfl
    · rw [closedBlock?, hpending, Option.ite_none_right_eq_some, Bool.and_eq_true,
        Bool.and_eq_true, Option.isNone_iff_eq_none, Bool.not_eq_true', List.isEmpty_eq_false_iff,
        Option.some.injEq, eq_comm (a := block), and_assoc (c := comments = block)]
    · rw [← hpending]
      exact step_of_table_eq_none htable line after

/-- A documented function, with two comments between its documentation that are none, and a
function behind it. -/
def commentedSource : Text :=
  "--- Adds.\n---@meta\n-- plain\n---@return number\nfunction add() end\nfunction sub() end".toList

/-- The block of the first function skips what is no documentation, and nothing is left for the
second function: one block is interpreted, and of the two functions the first one has what it
says. -/
theorem commentedSource_blocks :
    let comments := ["--- Adds.".toList, "---@meta".toList, "-- plain".toList,
      "---@return number".toList]
    let first := "function add() end".toList
    let second := "function sub() end".toList
    let block := ["--- Adds.".toList, "---@return number".toList]
    let opened := advance {} comments (first :: [second])
    Text.lines commentedSource = comments ++ first :: [second] ∧
      closedBlock? opened first = some block ∧
      (∀ other, closedBlock? (advance {} (comments ++ [first]) (second :: [])) second ≠
        some other) ∧
      (Interpreted.read {} (Text.lines commentedSource)).run.2 = [block] ∧
      step opened first [second] =
        commitBlock opened.registry (Block.ofLines block) first [second] ∧
      (run {} (Text.lines commentedSource)).registry.functions =
        [⟨some "add".toList, true, some "Adds.".toList, [], [⟨"number".toList, [], none⟩]⟩,
          ⟨some "sub".toList, true, none, [], []⟩] := by
  intro comments first second block opened
  have hlines : Text.lines commentedSource = comments ++ first :: [second] := by decide
  obtain ⟨-, hread, hsplits⟩ := documentation_used_once commentedSource
  obtain ⟨-, hfirst, -, hopened, -⟩ := hsplits comments first [second] hlines
  obtain ⟨-, hsecond, -⟩ := hsplits (comments ++ [first]) second [] hlines
  refine ⟨hlines, (hfirst _).mpr ?_, fun other hother => ?_, ?_, ?_, ?_⟩
  · decide +kernel
  · have hnone : (sinceClosed (plainLines {} (comments ++ [first]) (second :: []))).filterMap
        docComment? = [] := by decide +kernel
    exact ((hsecond other).mp hother).2.1 hnone
  · rw [hread]
    decide +kernel
  · exact (hopened (by decide +kernel)).1 (by decide +kernel)
  · decide +kernel

end LuaReference.Reader
