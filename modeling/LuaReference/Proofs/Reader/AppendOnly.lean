import LuaReference.Proofs.Reader.Step
import LuaReference.Proofs.Registry.Growth
import LuaReference.Proofs.Text.Lines

set_option autoImplicit false

/-! # Appending to a source

What stands in a source stays documented when lines are appended to it (`parse_append_growsTo`).
The lines of the shorter source are read in the same way in both sources, but a function may look
at what lies behind them: the two runs mirror each other (`Reader.agree_step`), because what a function
looks for is only found more often in more lines (`Returns.afterLine_append`). The appended lines
then change what the longer run has, and all changes are growth.
-/

namespace LuaReference

/-! ## Looking further down -/

namespace Returns

/-- A value that is given back is found as well if more lines follow. -/
theorem inBody_append {depth : Nat} {lines : List Text} (h : inBody depth lines = true)
    (more : List Text) : inBody depth (lines ++ more) = true := by
  induction lines generalizing depth with
  | nil => cases h
  | cons line rest ih =>
      rw [List.cons_append]
      simp only [inBody] at h ⊢
      by_cases hcomment : commentMarker.isPrefixOf (Text.trim line) = true
      · rw [if_pos hcomment] at h ⊢
        exact ih h
      rw [if_neg hcomment] at h ⊢
      by_cases hopen : "function".toList.isPrefixOf (Code.ofLine (Text.trim line)) = true
      · rw [if_pos hopen, Bool.or_eq_true] at h ⊢
        exact h.imp_right ih
      rw [if_neg hopen] at h ⊢
      by_cases hclose : Code.ofLine (Text.trim line) = "end".toList
      · rw [if_pos hclose] at h ⊢
        cases depth with
        | zero => cases h
        | succ depth => exact ih h
      · rw [if_neg hclose, Bool.or_eq_true] at h ⊢
        exact h.imp_right ih

theorem afterLine_append {line : Text} {rest : List Text} (h : afterLine line rest = true)
    (more : List Text) : afterLine line (rest ++ more) = true := by
  rw [afterLine, Bool.or_eq_true] at h ⊢
  exact h.imp_right fun h => inBody_append h more

end Returns

namespace Reader

/-- The function documented at a header grows with the lines behind it. -/
theorem functionDoc_growsTo (block : Block) (header : FunctionHeader) {found found' : Bool}
    (h : found = true → found' = true) :
    (functionDoc block header found).GrowsTo (functionDoc block header found') := by
  cases found with
  | true => rw [h rfl]; exact .inl rfl
  | false =>
      cases found' with
      | false => exact .inl rfl
      | true =>
          rw [functionDoc, functionDoc]
          cases hreturns : block.returns with
          | nil => exact .inr ⟨rfl, rfl⟩
          | cons entry entries => exact .inl rfl

/-! ## Two runs over the same lines -/

section Mirrors

variable {old new : Registry}

theorem mirrors_recordLocal (h : old.Mirrors new) (line : Text) :
    (recordLocal old line).Mirrors (recordLocal new line) := by
  rw [recordLocal, recordLocal]
  split
  · cases Declaration.target? line with
    | none => exact h
    | some path => exact h.apply (.addLocal (dotted path))
  · exact h

theorem mirrors_commitClass (h : old.Mirrors new) (block : Block) :
    (commitClass old block).Mirrors (commitClass new block) := by
  rw [commitClass, commitClass]
  cases block.classDecl with
  | none => exact h
  | some decl =>
      have hdescribed := h.apply (.inClass decl.name (.describe block.description))
      exact hdescribed.apply (.inClass decl.name (.addFields (block.fields.map FieldDoc.finish)))

theorem mirrors_commitField (h : old.Mirrors new) (decl : TypeDecl) (line : Text) :
    (commitField old decl line).Mirrors (commitField new decl line) := by
  simp only [commitField, h.isHidden]
  split
  · exact h
  · split
    · split
      · exact h
      · exact h.apply (.addField _)
    · split
      · exact h
      · exact h.apply (.inClass _ (.addFields _))
    · exact h

theorem mirrors_commitFunction (h : old.Mirrors new) (block : Block) (line : Text)
    (rest more : List Text) :
    (commitFunction old block line rest).Mirrors
      (commitFunction new block line (rest ++ more)) := by
  rw [commitFunction, commitFunction]
  split
  · exact h
  · cases Declaration.headerOf? line with
    | none => exact h
    | some header =>
        -- only here do the lines behind matter
        have hfound (found : Returns.afterLine line rest = true) :
            Returns.afterLine line (rest ++ more) = true := Returns.afterLine_append found more
        have hgrows := functionDoc_growsTo block header hfound
        have hhidden : isHiddenOwner new header.owner = isHiddenOwner old header.owner := by
          simp only [isHiddenOwner, h.isHidden]
        simp only [hhidden]
        split
        · exact h
        · cases header.owner with
          | none => exact h.apply (.addFunction hgrows)
          | some owner => exact h.apply (.inClass _ (.addFunction hgrows))

end Mirrors

/-- The states of two runs that have read the same lines, with other lines behind them. -/
structure Agree (old new : Reader) : Prop where
  registry : old.registry.Mirrors new.registry
  pending : new.pending = old.pending
  table : new.table = old.table

theorem agree_codeLine {old new : Registry} (h : old.Mirrors new) (pending : List Text)
    (line : Text) (rest more : List Text) :
    Agree (codeLine old pending line rest) (codeLine new pending line (rest ++ more)) := by
  rw [codeLine, codeLine, commitBlock, commitBlock]
  have hclass := mirrors_commitClass h (Block.ofLines pending)
  cases (Block.ofLines pending).classDecl with
  | some decl =>
      cases henum : decl.isEnum with
      | false =>
          simp only [henum]
          exact ⟨hclass, rfl, rfl⟩
      | true =>
          simp only [henum]
          exact ⟨hclass.apply (.inClass decl.name (.addFields _)), rfl, rfl⟩
  | none =>
      cases (Block.ofLines pending).typeDecl with
      | some decl => exact ⟨mirrors_commitField h decl line, rfl, rfl⟩
      | none => exact ⟨mirrors_commitFunction h _ line rest more, rfl, rfl⟩

/-- Two runs that agree still do after one more line. -/
theorem agree_step {old new : Reader} (h : Agree old new) (line : Text) (rest more : List Text) :
    Agree (step old line rest) (step new line (rest ++ more)) := by
  rw [step, step, h.table]
  cases old.table with
  | some entry =>
      exact ⟨h.registry.apply (.inClass entry.1 (.addFields _)), h.pending, rfl⟩
  | none =>
      have hlocal := mirrors_recordLocal h.registry (Text.trim line)
      simp only [plainLine_eq, h.pending]
      cases lineKind line with
      | documentation => exact ⟨hlocal, rfl, rfl⟩
      | comment => exact ⟨hlocal, rfl, rfl⟩
      | blank => exact ⟨mirrors_commitClass hlocal _, rfl, rfl⟩
      | code => exact agree_codeLine hlocal old.pending (Text.trim line) rest more

theorem agree_advance {old new : Reader} (h : Agree old new) (lines rest more : List Text) :
    Agree (advance old lines rest) (advance new lines (rest ++ more)) := by
  induction lines generalizing old new with
  | nil => exact h
  | cons line lines ih =>
      -- what is behind the line is the rest of the lines and then what differs
      have hstep := agree_step h line (lines ++ rest) more
      rw [List.append_assoc] at hstep
      exact ih hstep

end Reader

/-- **Appending to a source only adds to its documentation**, if the source ends in a line feed.
Its classes, its functions and its fields stay the first ones, in their order, and so do the
members of each class. The description of a class may change, and a function without returned
values may get one of any type; nothing else does. -/
theorem parse_append_growsTo {first : Text} (closed : first.getLast? = some '\n')
    (second namespaceName : Text) :
    ∃ old new, parse first namespaceName = .ok ⟨[old]⟩ ∧
      parse (first ++ second) namespaceName = .ok ⟨[new]⟩ ∧ old.GrowsTo new := by
  have hlines : Text.lines (first ++ second) = Text.lines first ++ Text.lines second :=
    Text.lines_append (by simp [closed]) second
  have hstart : Reader.Agree {} {} := ⟨.empty, rfl, rfl⟩
  have hagree := Reader.agree_advance hstart (Text.lines first) [] (Text.lines second)
  obtain ⟨changes, hchanges⟩ := Reader.exists_changes_run
    (Reader.advance {} (Text.lines first) (Text.lines second)) (Text.lines second)
  have hgrows := hagree.registry.flatten_applyAll changes namespaceName
  rw [List.nil_append, ← hchanges, ← Reader.run_append, ← Reader.run_eq_advance] at hgrows
  rw [parse, parse, hlines]
  exact hgrows

/-- A function whose body goes on in another piece of the source. -/
def openFunction : Text := "function radius()\n".toList

/-- The other piece. -/
def functionBody : Text := "  return self.r\nend\n".toList

/-- The function gets its returned value from what is appended, and is otherwise the same. -/
theorem parse_openFunction_growsTo :
    openFunction.getLast? = some '\n' ∧
      ∃ old new, parse openFunction defaultNamespace = .ok ⟨[old]⟩ ∧
        parse (openFunction ++ functionBody) defaultNamespace = .ok ⟨[new]⟩ ∧ old.GrowsTo new ∧
        old.functions = [{ name := "radius".toList }] ∧
        new.functions = [{ name := "radius".toList, returns := [{ type := anyType }] }] := by
  have closed : openFunction.getLast? = some '\n' := by decide
  obtain ⟨old, new, hold, hnew, hgrows⟩ :=
    parse_append_growsTo closed functionBody defaultNamespace
  have hbefore : parse openFunction defaultNamespace =
      .ok ⟨[⟨defaultNamespace, [], [{ name := "radius".toList }], []⟩]⟩ := by
    decide +kernel
  have hafter : parse (openFunction ++ functionBody) defaultNamespace =
      .ok ⟨[⟨defaultNamespace, [],
        [{ name := "radius".toList, returns := [{ type := anyType }] }], []⟩]⟩ := by
    decide +kernel
  refine ⟨closed, old, new, hold, hnew, hgrows, ?_, ?_⟩
  · rw [hbefore] at hold
    cases hold
    rfl
  · rw [hafter] at hnew
    cases hnew
    rfl

end LuaReference
