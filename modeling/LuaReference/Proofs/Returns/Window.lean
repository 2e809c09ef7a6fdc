import LuaReference.Proofs.Reader.Ahead
import LuaReference.Proofs.Returns.Occurrence
import LuaReference.Proofs.Source.WrittenCode

set_option autoImplicit false

/-! # The lines that are searched for a returned value

Behind the line of a declaration one function is open. A line whose code begins with `function`
opens one more, a line whose code is the bare word `end` closes one (`openBehind`). The lines up to
the one that closes the last function are searched, and no other: the function gives back a value
if one of the lines does so in front of which functions have been open all along
(`afterLine_iff`). So the lines behind the closing one may be anything
(`afterLine_append_of_closed`), and a `return` with nothing but a comment behind it counts nowhere
(`sameBody_bareReturn`).
-/

namespace LuaReference

namespace Returns

/-! ## What a line does -/

/-- The code of a line that is not all comment. -/
def codeOn? (line : Text) : Option Text :=
  if commentMarker.isPrefixOf (Text.trim line) then none else some (Code.ofLine (Text.trim line))

/-- Whether a line opens a function. -/
def opens (line : Text) : Bool := (codeOn? line).any ("function".toList.isPrefixOf ·)

/-- Whether a line closes a function. -/
def closes (line : Text) : Bool := codeOn? line = some "end".toList

/-- A line whose code gives back a value. -/
def GivesBackOn (line : Text) : Prop := ∃ code ∈ codeOn? line, GivesBack code

/-- A line that is all comment has no code; another one has some or is blank. -/
theorem codeOn?_eq (line : Text) :
    codeOn? line = none ∧ Code.ofLine line = [] ∨ codeOn? line = some (Code.ofLine line) := by
  rw [codeOn?, Code.ofLine_trim]
  split
  · rename_i hcomment
    exact .inl ⟨rfl, Code.ofLine_eq_nil (List.isPrefixOf_iff_prefix.mp hcomment)⟩
  · exact .inr rfl

theorem opens_eq (line : Text) : opens line = "function".toList.isPrefixOf (Code.ofLine line) := by
  rcases codeOn?_eq line with ⟨hnone, hcode⟩ | hsome
  · rw [opens, hnone, hcode]
    rfl
  · rw [opens, hsome, Option.any_some]

theorem closes_eq (line : Text) : closes line = decide (Code.ofLine line = "end".toList) := by
  rcases codeOn?_eq line with ⟨hnone, hcode⟩ | hsome
  · rw [closes, hnone, hcode]
    rfl
  · simp only [closes, hsome, Option.some.injEq]

theorem givesBackOn_iff (line : Text) : GivesBackOn line ↔ GivesBack (Code.ofLine line) := by
  rcases codeOn?_eq line with ⟨hnone, hcode⟩ | hsome
  · have hempty : returnsValue [] = false := rfl
    simp [GivesBackOn, hnone, hcode, ← returnsValue_iff, hempty]
  · simp [GivesBackOn, hsome]

theorem inBody_cons (depth : Nat) (line : Text) (rest : List Text) :
    inBody depth (line :: rest) =
      match codeOn? line with
      | none => inBody depth rest
      | some code =>
          if "function".toList.isPrefixOf code then returnsValue code || inBody (depth + 1) rest
          else if code = "end".toList then
            match depth with
            | 0 => false
            | depth + 1 => inBody depth rest
          else returnsValue code || inBody depth rest := by
  simp only [inBody, codeOn?]
  split <;> rfl

/-- No line opens a function and closes one. -/
theorem closes_eq_false {line : Text} (h : opens line = true) : closes line = false := by
  rw [opens_eq] at h
  rw [closes_eq]
  refine decide_eq_false fun hend => ?_
  rw [hend] at h
  exact absurd h (by decide)

theorem returnsValue_eq_false {line : Text} (h : closes line = true) :
    returnsValue (Code.ofLine line) = false := by
  rw [closes_eq] at h
  rw [of_decide_eq_true h]
  decide

/-- The search over lines of code. A line that is all comment counts like a blank one. -/
theorem inBody_cons_eq (depth : Nat) (line : Text) (rest : List Text) :
    inBody depth (line :: rest) =
      if opens line then returnsValue (Code.ofLine line) || inBody (depth + 1) rest
      else if closes line then
        match depth with
        | 0 => false
        | depth + 1 => inBody depth rest
      else returnsValue (Code.ofLine line) || inBody depth rest := by
  rw [inBody_cons, opens_eq, closes_eq]
  rcases codeOn?_eq line with ⟨hnone, hcode⟩ | hsome
  · rw [hnone, hcode]
    rfl
  · rw [hsome]
    simp only [decide_eq_true_eq]

/-! ## The window -/

/-- How many functions are open behind some lines if `start` of them are open in front. -/
def openBehind (start : Int) (lines : List Text) : Int :=
  start + lines.countP opens - lines.countP closes

/-- One of the lines gives back a value, and behind each of the lines in front of it functions are
still open. -/
def GivesBackWithin (start : Int) (lines : List Text) : Prop :=
  ∃ before line after, lines = before ++ line :: after ∧ GivesBackOn line ∧
    ∀ passed, passed <+: before → 0 < openBehind start passed

theorem openBehind_nil (start : Int) : openBehind start [] = start := by
  simp [openBehind]

theorem openBehind_cons (start : Int) (line : Text) (rest : List Text) :
    openBehind start (line :: rest) = openBehind (openBehind start [line]) rest := by
  simp only [openBehind, List.countP_cons, List.countP_nil]
  omega

/-- The first line gives back a value, or functions are open behind it and one of the further lines
does. -/
theorem givesBackWithin_cons {start : Int} (hstart : 0 < start) (line : Text) (rest : List Text) :
    GivesBackWithin start (line :: rest) ↔
      GivesBackOn line ∨
        0 < openBehind start [line] ∧ GivesBackWithin (openBehind start [line]) rest := by
  constructor
  · rintro ⟨before, found, after, hlines, hfound, hopen⟩
    cases before with
    | nil => -- no line stands in front of the one that gives back a value
        obtain ⟨rfl, -⟩ := List.cons.inj hlines
        exact .inl hfound
    | cons first before =>
        obtain ⟨rfl, hrest⟩ := List.cons.inj hlines
        have hhere : 0 < openBehind start [line] := hopen [line] ⟨before, rfl⟩
        refine .inr ⟨hhere, before, found, after, hrest, hfound, fun passed hpassed => ?_⟩
        have hlonger := hopen (line :: passed) (List.cons_prefix_cons.mpr ⟨rfl, hpassed⟩)
        rwa [openBehind_cons] at hlonger
  · rintro (hfound | ⟨hhere, before, found, after, rfl, hfound, hopen⟩)
    · refine ⟨[], line, rest, rfl, hfound, fun passed hpassed => ?_⟩
      obtain rfl := List.prefix_nil.mp hpassed
      rwa [openBehind_nil]
    · refine ⟨line :: before, found, after, rfl, hfound, fun passed hpassed => ?_⟩
      cases passed with
      | nil => rwa [openBehind_nil]
      | cons first passed =>
          obtain ⟨rfl, hbefore⟩ := List.cons_prefix_cons.mp hpassed
          rw [openBehind_cons]
          exact hopen passed hbefore

theorem not_givesBackWithin_nil (start : Int) : ¬ GivesBackWithin start [] := by
  rintro ⟨before, line, after, h, -⟩
  simp at h

theorem openBehind_singleton (start : Int) (line : Text) :
    openBehind start [line] = start + (opens line).toNat - (closes line).toNat := by
  simp only [openBehind, List.countP_singleton]
  cases opens line <;> cases closes line <;> rfl

/-- **The lines are searched as far as functions are open.** -/
theorem inBody_iff (depth : Nat) (lines : List Text) :
    inBody depth lines = true ↔ GivesBackWithin (depth + 1) lines := by
  induction lines generalizing depth with
  | nil => exact iff_of_false Bool.false_ne_true (not_givesBackWithin_nil _)
  | cons line rest ih =>
      have hstart : (0 : Int) < depth + 1 := by omega
      rw [givesBackWithin_cons hstart, inBody_cons_eq, openBehind_singleton, givesBackOn_iff,
        ← returnsValue_iff]
      cases hopens : opens line with
      | true =>
          -- one more function is open behind the line
          have hclosed : closes line = false := closes_eq_false hopens
          have hopen : (depth : Int) + 1 + true.toNat - false.toNat = (depth + 1 : Nat) + 1 := by
            simp
          have hpos : (0 : Int) < (depth + 1 : Nat) + 1 := by omega
          rw [if_pos rfl, hclosed, hopen, Bool.or_eq_true, ih, and_iff_right hpos]
      | false =>
          rw [if_neg Bool.false_ne_true]
          cases hcloses : closes line with
          | true =>
              -- one less is open, and the line itself gives back nothing
              have hopen : (depth : Int) + 1 + false.toNat - true.toNat = depth := by simp
              rw [if_pos rfl, hopen, returnsValue_eq_false hcloses,
                or_iff_right Bool.false_ne_true]
              cases depth with
              | zero => -- this was the function that is asked for
                  exact iff_of_false Bool.false_ne_true fun h => absurd h.1 (by decide)
              | succ depth =>
                  have hpos : (0 : Int) < (depth + 1 : Nat) := by omega
                  rw [and_iff_right hpos]
                  exact ih depth
          | false =>
              have hopen : (depth : Int) + 1 + false.toNat - false.toNat = depth + 1 := by simp
              rw [if_neg Bool.false_ne_true, hopen, Bool.or_eq_true, ih, and_iff_right hstart]

theorem afterLine_iff (line : Text) (rest : List Text) :
    afterLine line rest = true ↔
      GivesBackInDeclaration (Code.ofLine line) ∨ GivesBackWithin 1 rest := by
  rw [afterLine, Bool.or_eq_true, inDeclaration_iff, inBody_iff]
  simp

/-- Behind lines that leave no function open nothing is searched. -/
theorem givesBackWithin_append_of_closed {start : Int} {lines : List Text}
    (h : openBehind start lines = 0) (more : List Text) :
    GivesBackWithin start (lines ++ more) ↔ GivesBackWithin start lines := by
  constructor
  · rintro ⟨before, line, after, hlines, hline, hopen⟩
    -- behind all of `lines` no function is open, so the line is one of them
    have hinside : ¬ lines <+: before := by
      intro hpassed
      have hpos := hopen lines hpassed
      omega
    rcases List.append_eq_append_iff.mp hlines with ⟨passed, rfl, -⟩ | ⟨behind, rfl, hbehind⟩
    · exact absurd (List.prefix_append _ _) hinside
    · cases behind with
      | nil => exact absurd (by simp) hinside
      | cons first behind =>
          obtain ⟨rfl, -⟩ := List.cons.inj hbehind
          exact ⟨before, line, behind, rfl, hline, hopen⟩
  · rintro ⟨before, line, after, rfl, hline, hopen⟩
    exact ⟨before, line, after ++ more, by simp, hline, hopen⟩

/-- **Lines behind the one that closes the function do not matter.** -/
theorem afterLine_append_of_closed {lines : List Text} (h : openBehind 1 lines = 0) (line : Text)
    (more : List Text) : afterLine line (lines ++ more) = afterLine line lines := by
  rw [Bool.eq_iff_iff, afterLine_iff, afterLine_iff, givesBackWithin_append_of_closed h]

/-! ## Returns without a value -/

/-- A line with a `return` that nothing but a comment follows. -/
def IsBareReturn (line : Text) : Prop :=
  ∃ indent blanks remark : Text, line = indent ++ ("return".toList ++ (blanks ++ remark)) ∧
    (∀ c ∈ indent, isBlank c = true) ∧ (∀ c ∈ blanks, isBlank c = true) ∧
    (remark = [] ∨ commentMarker <+: remark)

theorem codeOn?_bareReturn {line : Text} (h : IsBareReturn line) :
    codeOn? line = some "return".toList := by
  obtain ⟨indent, blanks, remark, rfl, hindent, hblanks, hremark⟩ := h
  have hink : Text.EndsInInk "return".toList := ⟨by decide, by decide⟩
  have hpassed : commentMarker.isPrefixOf
      (Text.trim (indent ++ ("return".toList ++ (blanks ++ remark)))) = false := by
    rw [Text.trim_append_left hindent, Text.trim_append hink (by decide)]
    exact Text.isPrefixOf_cons_eq_false (by decide) _ _
  have hdash : ∀ c ∈ "return".toList ++ blanks, c ≠ '-' := by
    intro c hc
    have hword : ∀ d ∈ "return".toList, d ≠ '-' := by decide
    exact (List.mem_append.mp hc).elim (hword c) fun hc => ne_of_test (hblanks c hc) (by decide)
  have hcut : Text.cutAt commentMarker remark = [] := by
    rcases hremark with rfl | ⟨comment, rfl⟩
    · exact Text.cutAt_nil _
    · exact Text.cutAt_mark (by decide) comment
  have hcode : Code.ofLine ("return".toList ++ (blanks ++ remark)) = "return".toList := by
    have hfront : Text.cutAt commentMarker (("return".toList ++ blanks) ++ remark) =
        ("return".toList ++ blanks) ++ Text.cutAt commentMarker remark := Text.cutAt_append hdash _
    rw [Code.ofLine, ← List.append_assoc, hfront, hcut, List.append_nil,
      Text.trim_append_right hblanks]
    decide
  rw [codeOn?, hpassed, if_neg Bool.false_ne_true, Text.trim_append_left hindent, Code.ofLine_trim,
    hcode]

/-- **A bare `return` counts nowhere.** -/
theorem sameBody_bareReturn {line : Text} (h : IsBareReturn line) (rest : List Text) :
    SameBody (line :: rest) rest := by
  intro depth
  have hnone : returnsValue "return".toList = false := by decide
  rw [inBody_cons, codeOn?_bareReturn h]
  simp only [hnone, Bool.false_or]
  rw [if_neg (by decide), if_neg (by decide)]

/-- What is given back stands in the code behind the `return`. -/
theorem GivesBackAt.exists_value {line front : Text} (h : GivesBackAt (Code.ofLine line) front) :
    ∃ value, Code.ofLine line = front ++ ("return".toList ++ value) ∧
      ∃ c ∈ value, isBlank c = false := by
  obtain ⟨blank, behind, hblank, hcode⟩ := h.occurs
  refine ⟨blank :: behind, hcode, ?_⟩
  have hne : Code.ofLine line ≠ [] := by simp [hcode]
  have hlast := (Text.endsInInk_trim hne).getLast
  rw [show Text.trim (Text.cutAt commentMarker line) = Code.ofLine line from rfl, hcode,
    List.getLast?_append_of_ne_nil _ (by simp), List.getLast?_append_of_ne_nil _ (by simp),
    List.getLast?_eq_some_getLast (List.cons_ne_nil blank behind)] at hlast
  exact ⟨_, List.getLast_mem (List.cons_ne_nil blank behind), hlast _ rfl⟩

end Returns

end LuaReference
