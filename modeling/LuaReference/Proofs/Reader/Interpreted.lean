import LuaReference.Proofs.Reader.Step
import Mathlib.Control.Monad.Writer

set_option autoImplicit false

/-! # The blocks that are interpreted

A source is read here once more, and each block that is interpreted is written down. Only a line of
code or a blank line interprets a block, namely the pending one, and if nothing is pending none is:
then a line of code declares at most a function without documentation. The states are the same as
without this record, and what is written down at a line is the block that the line closes
(`Interpreted.run_step`).
-/

namespace LuaReference.Reader

/-- A result, together with the blocks that have been interpreted for it. -/
abbrev Interpreted := Writer (List (List Text))

namespace Interpreted

/-- Interprets a block, and writes it down. -/
def ofLines (block : List Text) : Interpreted Block := do
  tell [block]
  return Block.ofLines block

/-- Closes the pending block with a blank line. -/
def blankLine (registry : Registry) (pending : List Text) : Interpreted Reader := do
  if pending.isEmpty then return { registry }
  let block ← ofLines pending
  return { registry := commitClass registry block }

/-- Closes the pending block with a trimmed line of code, `rest` being the lines that follow. -/
def codeLine (registry : Registry) (pending : List Text) (line : Text) (rest : List Text) :
    Interpreted Reader := do
  if pending.isEmpty then return { registry := commitFunction registry {} line rest }
  let block ← ofLines pending
  return commitBlock registry block line rest

/-- Reads a line outside of enum tables. -/
def plainLine (reader : Reader) (line : Text) (rest : List Text) : Interpreted Reader :=
  let registry := recordLocal reader.registry (Text.trim line)
  match lineKind line with
  | .documentation => return { registry, pending := reader.pending ++ [Text.trim line] }
  | .blank => blankLine registry reader.pending
  | .comment => return { registry, pending := reader.pending }
  | .code => codeLine registry reader.pending (Text.trim line) rest

/-- Reads one more line, `rest` being the lines that follow. -/
def step (reader : Reader) (line : Text) (rest : List Text) : Interpreted Reader :=
  match reader.table with
  | some (name, table) => return tableLine reader name table line
  | none => plainLine reader line rest

/-- Reads lines up to the end. -/
def read (reader : Reader) : List Text → Interpreted Reader
  | [] => return reader
  | line :: rest => do
      let next ← step reader line rest
      read next rest

/-! ## One line -/

theorem run_blankLine (registry : Registry) (pending : List Text) :
    (blankLine registry pending).run =
      ({ registry := commitClass registry (Block.ofLines pending) },
        if !pending.isEmpty then [pending] else []) := by
  cases pending <;> rfl

theorem run_codeLine (registry : Registry) (pending : List Text) (line : Text)
    (rest : List Text) :
    (codeLine registry pending line rest).run =
      (Reader.codeLine registry pending line rest,
        if !pending.isEmpty then [pending] else []) := by
  cases pending <;> rfl

theorem run_plainLine (reader : Reader) (line : Text) (rest : List Text) :
    (plainLine reader line rest).run =
      (Reader.plainLine reader line rest,
        if (lineKind line).closes && !reader.pending.isEmpty then [reader.pending] else []) := by
  rw [plainLine, plainLine_eq]
  cases lineKind line with
  | documentation => rfl
  | blank => exact run_blankLine _ _
  | comment => rfl
  | code => exact run_codeLine _ _ _ _

/-- **Reading a line interprets the block that the line closes, and nothing else.** -/
theorem run_step (reader : Reader) (line : Text) (rest : List Text) :
    (step reader line rest).run =
      (Reader.step reader line rest, (closedBlock? reader line).toList) := by
  rw [step, Reader.step, closedBlock?]
  cases ht : reader.table with
  | some entry => rfl
  | none =>
      refine (run_plainLine reader line rest).trans ?_
      rw [Option.isNone_none, Bool.true_and]
      split <;> rfl

end Interpreted

end LuaReference.Reader
