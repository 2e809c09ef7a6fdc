import LuaReference.Proofs.Returns.Window

set_option autoImplicit false

/-! # Functions on one line

A function may be declared and closed on one line. Its `end` is not the code of a line of its own,
so it closes nothing: the function counts as open on the next line, and what the lines behind it
give back is taken for its own (`afterLine_oneLine`). The answer stays the same whatever follows
exactly if the body itself gives back a value, or ends in a `return` that the `end` stands behind.
-/

namespace LuaReference

open Declaration Returns

/-- A function that is declared and closed on one line. -/
structure OneLineFunction where
  header : FunctionHeader
  /-- The blanks in front of the name. -/
  before : Text := [' ']
  /-- The blanks behind the name. -/
  after : Text := []
  /-- All that stands between the parameters and the `end`. -/
  body : Text

namespace OneLineFunction

/-- The line of the function. -/
def text (function : OneLineFunction) : Text :=
  headerText function.header function.before function.after ++ (function.body ++ "end".toList)

/-- What makes a function one that can be written on a line: the line has no comment, and nothing in
the header is the word `return`. -/
structure IsWritten (function : OneLineFunction) : Prop where
  header : function.header.IsWritten
  before_ne_nil : function.before ≠ []
  before : ∀ c ∈ function.before, isBlank c = true
  after : ∀ c ∈ function.after, isBlank c = true
  noReturn : ¬ GivesBack (headerText function.header function.before function.after)
  noComment : ¬ commentMarker <:+: function.text

end OneLineFunction

namespace Returns

/-- Behind a text without blanks nothing more is given back. -/
theorem givesBack_append {tail : Text} (h : ∀ c ∈ tail, isBlank c = false) (front : Text) :
    GivesBack (front ++ tail) ↔ GivesBack front := by
  constructor
  · rintro ⟨place, ⟨blank, behind, hblank, htext⟩, hseparate⟩
    have hsplit : front ++ tail = (place ++ ("return".toList ++ [blank])) ++ behind := by
      rw [htext]
      simp
    rcases List.append_eq_append_iff.mp hsplit with ⟨more, hmore, hbehind⟩ | ⟨more, rfl, -⟩
    · rcases List.eq_nil_or_concat more with rfl | ⟨init, last, rfl⟩
      · exact ⟨place, ⟨blank, [], hblank, by simpa using hmore.symm⟩, hseparate⟩
      · -- the blank would stand in the tail
        have hends := congrArg List.getLast? hmore
        have hlast : blank = last := by simpa using hends
        have hmem : last ∈ tail := by simp [hbehind]
        rw [hlast, h last hmem] at hblank
        cases hblank
    · exact ⟨place, ⟨blank, more, hblank, by simp⟩, hseparate⟩
  · rintro ⟨place, ⟨blank, behind, hblank, rfl⟩, hseparate⟩
    exact ⟨place, ⟨blank, behind ++ tail, hblank, by simp⟩, hseparate⟩

end Returns

namespace OneLineFunction

variable {function : OneLineFunction}

/-- All of the line is code. -/
theorem ofLine_text (h : function.IsWritten) : Code.ofLine function.text = function.text := by
  have hink : Text.EndsInInk function.text := by
    unfold text
    rw [← List.append_assoc]
    exact Text.EndsInInk.append ⟨by decide, by decide⟩ _
  rw [Code.ofLine, Text.cutAt_eq_self h.noComment,
    hink.trim_eq_self (Text.head_cons (by decide) _)]

theorem givesBack_text (h : function.IsWritten) :
    GivesBack function.text ↔ GivesBack function.body := by
  have hheader : ¬ GivesBack (headerFront function.header function.before function.after) := by
    have hnone := h.noReturn
    rw [← List.append_nil (headerText _ _ _), headerText_append,
      givesBack_append_cons (by decide) (by decide)] at hnone
    exact fun hfront => hnone (.inl hfront)
  rw [text, headerText_append, givesBack_append_cons (by decide) (by decide),
    givesBack_append (by decide), or_iff_right hheader]

theorem inDeclaration_text (h : function.IsWritten) :
    inDeclaration function.text = true ↔ GivesBack function.body := by
  have hfunction : "function".toList <+: function.text := by
    unfold text headerText
    rw [List.append_assoc]
    exact List.prefix_append _ _
  rw [inDeclaration_iff, ofLine_text h, givesBackInDeclaration_iff hfunction, givesBack_text h]

theorem isLocal_text (function : OneLineFunction) : isLocal function.text = false :=
  isLocal_cons (by decide) _

theorem headerOf?_text (h : function.IsWritten) : headerOf? function.text = some function.header :=
  headerOf?_append h.header h.before h.before_ne_nil h.after _

/-- **The lines behind a function on one line count as its body.** It gives back a value exactly if
its own body does or, functions being open all along, one of the lines behind it; so that the answer
is the same whatever follows exactly if its own body does. Without documentation it is added with
no returned value if neither does, and with one if either does. -/
theorem afterLine_oneLine (h : function.IsWritten) :
    (∀ rest, afterLine function.text rest = true ↔
      GivesBack function.body ∨ GivesBackWithin 1 rest) ∧
    ((∀ rest rest', afterLine function.text rest = afterLine function.text rest') ↔
      GivesBack function.body) ∧
    ∀ registry rest, Reader.isHiddenOwner registry function.header.owner = false →
      ∃ added, Reader.commitFunction registry {} function.text rest =
          Reader.addFunction registry function.header.owner added ∧
        added.name = function.header.name ∧
        (added.returns = [] ↔ ¬ GivesBack function.body ∧ ¬ GivesBackWithin 1 rest) := by
  have hiff (rest : List Text) : afterLine function.text rest = true ↔
      GivesBack function.body ∨ GivesBackWithin 1 rest := by
    rw [afterLine_iff, ← inDeclaration_iff, inDeclaration_text h]
  refine ⟨hiff, ⟨fun hsame => ?_, fun hbody rest rest' => ?_⟩, fun registry rest hvisible => ?_⟩
  · -- nothing follows in one case, and in the other a line that gives back a value
    by_contra hbody
    have hvalue : afterLine function.text ["return 1".toList] = true := by
      rw [afterLine, Bool.or_eq_true]
      exact .inr (by decide)
    rw [hsame _ [], hiff] at hvalue
    exact hvalue.elim hbody (not_givesBackWithin_nil 1)
  · rw [(hiff rest).mpr (.inl hbody), (hiff rest').mpr (.inl hbody)]
  · refine ⟨Reader.functionDoc {} function.header (afterLine function.text rest), ?_, rfl, ?_⟩
    · rw [Reader.commitFunction, isLocal_text, headerOf?_text h]
      simp only [hvisible]
      rfl
    · rw [← not_or, ← hiff rest]
      cases afterLine function.text rest <;> simp [Reader.functionDoc, FunctionDoc.finish]

/-- The owner of the function is a class, and its body calls another function. -/
def doorOpen : OneLineFunction where
  header := ⟨some ⟨["Door".toList], .colon⟩, "open".toList, "speed".toList⟩
  body := " swing(speed) ".toList

theorem doorOpen_isWritten : doorOpen.IsWritten where
  header := by
    refine ⟨fun owner ho => ?_, ⟨by decide, by decide⟩, by decide⟩
    obtain rfl := Option.some.inj ho
    refine ⟨by decide, fun word hword => ?_⟩
    obtain rfl := List.mem_singleton.mp hword
    exact ⟨by decide, by decide⟩
  before_ne_nil := by decide
  before := by decide
  after := by decide
  noReturn := by
    rw [← returnsValue_iff]
    decide +kernel
  noComment := by decide +kernel

/-- Another function behind the one that is closed decides what is documented of it. -/
theorem doorOpen_oneLine :
    doorOpen.IsWritten ∧ doorOpen.text = "function Door:open(speed) swing(speed) end".toList ∧
      Reader.isHiddenOwner {} doorOpen.header.owner = false ∧
      ¬ GivesBack doorOpen.body ∧
      GivesBackWithin 1 ["function other()".toList, "  return 1".toList, "end".toList] ∧
      ∃ added, Reader.commitFunction {} {} doorOpen.text
          ["function other()".toList, "  return 1".toList, "end".toList] =
            Reader.addFunction {} doorOpen.header.owner added ∧
        added.name = "open".toList ∧ added.returns ≠ [] := by
  obtain ⟨hiff, -, hadd⟩ := afterLine_oneLine doorOpen_isWritten
  have hbody : ¬ GivesBack doorOpen.body := by
    rw [← returnsValue_iff]
    decide +kernel
  have hwithin := ((hiff ["function other()".toList, "  return 1".toList, "end".toList]).mp
    (by decide +kernel)).resolve_left hbody
  obtain ⟨added, hcommit, hname, hreturns⟩ := hadd {} _ (by decide)
  exact ⟨doorOpen_isWritten, by decide +kernel, by decide, hbody, hwithin, added, hcommit, hname,
    fun hnone => (hreturns.mp hnone).2 hwithin⟩

/-- A function that is closed on its line is taken to give back what the next function does, and
the `end` behind a bare `return` for a value. -/
theorem oneLine_answer_depends :
    afterLine "function f() end".toList [] = false ∧
      afterLine "function f() end".toList
        ["function g()".toList, "  return 1".toList, "end".toList] = true ∧
      afterLine "function h() return end".toList [] = true ∧
      parse "function f() end\nfunction g()\n  return 1\nend".toList defaultNamespace =
        .ok ⟨[⟨defaultNamespace, [],
          [⟨"f".toList, true, none, [], [⟨"any".toList, [], none⟩]⟩,
            ⟨"g".toList, true, none, [], [⟨"any".toList, [], none⟩]⟩], []⟩]⟩ := by
  decide +kernel

end OneLineFunction

end LuaReference
