import LuaReference.Proofs.Returns.Window

set_option autoImplicit false

/-! # Looking ahead with a cursor

A reader that goes along the lines with a cursor looks for a returned value by reading on: it counts
the open functions, does not stop at the first value it finds, and at the end goes back to the line
it came from (`Cursor.lookAhead`). That is the search over the lines behind the cursor, and the
cursor is where it was (`Cursor.lookAhead_eq`). The main statement, `Cursor.lookAhead_window`, says
which lines the answer depends on.
-/

namespace LuaReference

open Returns

/-- A place in a list of lines: those in front of `position` have been read. -/
structure Cursor where
  lines : List Text
  position : Nat := 0
deriving DecidableEq

namespace Cursor

/-- The lines that have not been read. -/
def rest (cursor : Cursor) : List Text := cursor.lines.drop cursor.position

/-- Reads the next line and moves behind it. -/
def read? (cursor : Cursor) : Option (Text × Cursor) :=
  cursor.lines[cursor.position]?.map (·, { cursor with position := cursor.position + 1 })

theorem read?_eq_none {cursor : Cursor} (h : cursor.read? = none) : cursor.rest = [] := by
  rw [read?, Option.map_eq_none_iff, List.getElem?_eq_none_iff] at h
  exact List.drop_eq_nil_of_le h

/-- Reading takes the first of the lines that have not been read. -/
theorem read?_eq_some {cursor next : Cursor} {line : Text} (h : cursor.read? = some (line, next)) :
    cursor.rest = line :: next.rest ∧ next.lines = cursor.lines := by
  obtain ⟨found, hfound, hpair⟩ := Option.map_eq_some_iff.mp h
  obtain ⟨rfl, rfl⟩ := Prod.mk.inj hpair
  obtain ⟨hlt, rfl⟩ := List.getElem?_eq_some_iff.mp hfound
  exact ⟨List.drop_eq_getElem_cons hlt, rfl⟩

/-- Reads on up to the end of the last of `depth` open functions. A value that has been `found`
does not end the reading. -/
def scan (found : Bool) (depth : Nat) (cursor : Cursor) : Bool × Cursor :=
  match _hread : cursor.read? with
  | none => (found, cursor)
  | some (line, next) =>
      match codeOn? line with
      | none => scan found depth next
      | some code =>
          if "function".toList.isPrefixOf code then
            scan (found || returnsValue code) (depth + 1) next
          else if code = "end".toList then
            if depth = 1 then (found, next)
            else scan (found || returnsValue code) (depth - 1) next
          else scan (found || returnsValue code) depth next
termination_by cursor.rest.length
decreasing_by
  all_goals
    rw [(read?_eq_some _hread).1]
    exact Nat.lt_succ_self _

/-- Whether the function declared on `line` gives back a value, `cursor` being behind the line:
reads on as far as the function goes, and then goes back. -/
def lookAhead (line : Text) (cursor : Cursor) : Bool × Cursor :=
  let (found, reached) := scan (inDeclaration line) 1 cursor
  (found, { reached with position := cursor.position })

/-- Reading on finds what is given back in the lines behind the cursor, and moves nothing but the
cursor. -/
theorem exists_scan_eq (found : Bool) (depth : Nat) (cursor : Cursor) :
    ∃ position, scan found (depth + 1) cursor =
      (found || inBody depth cursor.rest, { cursor with position := position }) := by
  induction hrest : cursor.rest generalizing found depth cursor with
  | nil =>
      rw [scan]
      split
      · exact ⟨cursor.position, by rw [inBody, Bool.or_false]⟩
      · rename_i line next hread
        rw [(read?_eq_some hread).1] at hrest
        cases hrest
  | cons line rest ih =>
      rw [scan]
      split
      · rename_i hread
        rw [read?_eq_none hread] at hrest
        cases hrest
      · rename_i first next hread
        obtain ⟨hsplit, hlines⟩ := read?_eq_some hread
        rw [hsplit] at hrest
        obtain ⟨rfl, hnext⟩ := List.cons.inj hrest
        -- the rest of the scan, whatever this line has changed
        have hscan (found : Bool) (depth : Nat) : ∃ position, scan found (depth + 1) next =
            (found || inBody depth rest, { cursor with position := position }) := by
          rw [← hlines]
          exact ih found depth next hnext
        rw [inBody_cons]
        cases codeOn? first with
        | none => exact hscan found depth
        | some code =>
            simp only
            by_cases hfunction : "function".toList.isPrefixOf code = true
            · rw [if_pos hfunction, if_pos hfunction, ← Bool.or_assoc]
              exact hscan _ (depth + 1)
            rw [if_neg hfunction, if_neg hfunction]
            by_cases hend : code = "end".toList
            · have hnone : returnsValue "end".toList = false := by decide
              rw [if_pos hend, if_pos hend, hend, hnone, Bool.or_false]
              cases depth with
              | zero => exact ⟨next.position, by rw [← hlines, if_pos rfl, Bool.or_false]⟩
              | succ depth =>
                  rw [if_neg (by omega)]
                  exact hscan found depth
            · rw [if_neg hend, if_neg hend, ← Bool.or_assoc]
              exact hscan _ depth

/-- **Looking ahead is the search over the lines behind the cursor**, and the cursor stays where it
is. -/
theorem lookAhead_eq (line : Text) (cursor : Cursor) :
    lookAhead line cursor = (afterLine line cursor.rest, cursor) := by
  obtain ⟨position, hscan⟩ := exists_scan_eq (inDeclaration line) 0 cursor
  rw [lookAhead, hscan, afterLine]

/-- **The window of the lookahead.** The cursor is left where it is. The answer is yes exactly if
the line gives back a value behind the word `function`, or one of the lines behind the cursor does
in front of which functions are open all along, the declared one to begin with. So lines behind
those that close the function can be exchanged, and lines with a bare `return` left out; what is
given back is always code behind the `return`. -/
theorem lookAhead_window (cursor : Cursor) (line : Text) :
    (lookAhead line cursor).2 = cursor ∧
      (lookAhead line cursor).1 = afterLine line cursor.rest ∧
      ((lookAhead line cursor).1 = true ↔
        GivesBackInDeclaration (Code.ofLine line) ∨ GivesBackWithin 1 cursor.rest) ∧
      (∀ lines more more', openBehind 1 lines = 0 →
        afterLine line (lines ++ more) = afterLine line (lines ++ more')) ∧
      (∀ before bare after, IsBareReturn bare →
        afterLine line (before ++ bare :: after) = afterLine line (before ++ after)) ∧
      ∀ text front, GivesBackAt (Code.ofLine text) front →
        ∃ value, Code.ofLine text = front ++ ("return".toList ++ value) ∧
          ∃ c ∈ value, isBlank c = false := by
  rw [lookAhead_eq]
  refine ⟨rfl, rfl, afterLine_iff line cursor.rest, fun lines more more' hclosed => ?_,
    fun before bare after hbare => ?_, fun text front h => h.exists_value⟩
  · rw [afterLine_append_of_closed hclosed, afterLine_append_of_closed hclosed]
  · have hsame := (sameBody_bareReturn hbare after).append before
    rw [afterLine, afterLine, hsame 0]

/-- A function with a bare `return`, and another one inside of it that gives back a value. -/
def outerLines : List Text :=
  ["function outer()".toList, "  return -- done".toList, "  function inner() -- nested".toList,
    "    return 1".toList, "  end".toList, "end".toList, "return outer".toList]

theorem lookAhead_outerLines :
    let cursor : Cursor := ⟨outerLines, 1⟩
    let body := cursor.rest.take 5
    openBehind 1 body = 0 ∧ IsBareReturn "  return -- done".toList ∧
      lookAhead "function outer()".toList cursor = (true, cursor) ∧
      GivesBackWithin 1 cursor.rest ∧
      afterLine "function outer()".toList (body ++ ["end".toList]) = true := by
  intro cursor body
  have hclosed : openBehind 1 body = 0 := by decide +kernel
  have hbare : IsBareReturn "  return -- done".toList :=
    ⟨"  ".toList, " ".toList, "-- done".toList, by decide⟩
  obtain ⟨hcursor, hanswer, hiff, hmore, -⟩ :=
    lookAhead_window cursor "function outer()".toList
  have hfound : (lookAhead "function outer()".toList cursor).1 = true :=
    hanswer.trans (by decide +kernel)
  have hdeclaration : ¬ GivesBackInDeclaration (Code.ofLine "function outer()".toList) := by
    rw [← inDeclaration_iff]
    decide
  refine ⟨hclosed, hbare, Prod.ext hfound hcursor, (hiff.mp hfound).resolve_left hdeclaration, ?_⟩
  rw [hmore body ["end".toList] ["return outer".toList] hclosed]
  exact hanswer.symm.trans hfound

end Cursor

end LuaReference
