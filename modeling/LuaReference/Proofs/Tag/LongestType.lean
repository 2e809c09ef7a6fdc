import LuaReference.Proofs.Tag.TypeReading

set_option autoImplicit false

/-! # The longest type expression

A text can begin with several type expressions: with `number` also `numb` stands at its start, the
question mark of `T?` belongs to the run or to the expression, and `fun(...)` begins with the atom
`fun`. The reader tries each part once and never takes one back, and still no expression at the
start of the text is longer than the one it reads (`le_length_append`). So what is read has a
description that mentions no order of trying: it is the longest (`read?_eq_some_iff`).
-/

namespace LuaReference.TypeExpr

/-! ## Atoms and alternatives -/

/-- A run may go on in the text behind it, and is measured up to its own end. -/
theorem exists_whole_run {run : Text} (chars : ∀ c ∈ run, isAtomChar c = true) (rest : Text) :
    ∃ more behind, rest = more ++ behind ∧ (∀ c ∈ run ++ more, isAtomChar c = true) ∧
      ∀ c ∈ behind.head?, isAtomChar c = false := by
  obtain ⟨more, behind, rfl, hmore, hbehind⟩ := Text.exists_run isAtomChar rest
  refine ⟨more, behind, rfl, ?_, hbehind⟩
  intro c hc
  rcases List.mem_append.mp hc with hc | hc
  · exact chars c hc
  · exact hmore c hc

/-- What is measured as an atom is no shorter than an atom at the start of the text. -/
theorem IsAtom.le_atomLength_append {text : Text} (h : IsAtom text) (rest : Text) :
    text.length ≤ atomLength (text ++ rest) := by
  cases h with
  | run ne_nil chars =>
      obtain ⟨more, behind, rfl, hchars, hbehind⟩ := exists_whole_run chars rest
      rw [← List.append_assoc, atomLength_run_append (by simp [ne_nil]) hchars hbehind,
        List.length_append]
      omega
  | applied ne_nil chars arguments_ne_nil inside =>
      rw [atomLength_applied_append ne_nil chars arguments_ne_nil inside]

/-- What is measured as a function type has its opening in it. -/
theorem exists_opening_of_function {text : Text} (h : functionLength text ≠ 0) :
    ∃ behind, text = "fun(".toList ++ behind ∧ 4 ≤ functionLength text := by
  unfold functionLength at h
  split at h
  · exact absurd rfl h
  · rename_i behind hbehind
    obtain rfl : "fun(".toList ++ behind = text := List.isPrefixOf?_eq_some_iff_append_eq.mp hbehind
    split at h
    · exact absurd rfl h
    · rename_i close hclose
      refine ⟨behind, rfl, ?_⟩
      simp only [functionLength, Text.isPrefixOf?_append, hclose]
      omega

/-- Of an atom no more than the word `fun` stands at the start of a function type. -/
theorem IsAtom.le_functionLength_append {text rest : Text} (h : IsAtom text)
    (hfunction : functionLength (text ++ rest) ≠ 0) :
    text.length ≤ functionLength (text ++ rest) := by
  cases h with
  | run _ chars =>
      obtain ⟨more, behind, rfl, hchars, hbehind⟩ := exists_whole_run chars rest
      obtain ⟨inside, hopening, hfour⟩ := exists_opening_of_function hfunction
      -- both readings of the text end their first run at the parenthesis
      have hword : text ++ more = "fun".toList := by
        calc text ++ more
            = (text ++ (more ++ behind)).takeWhile isAtomChar := by
              rw [← List.append_assoc, Text.takeWhile_append hchars hbehind]
          _ = ("fun".toList ++ '(' :: inside).takeWhile isAtomChar := by
              rw [hopening]
              rfl
          _ = "fun".toList := Text.takeWhile_append (by decide) (by simp [isAtomChar]; decide)
      have hlen : text.length + more.length = 3 := by
        rw [← List.length_append, hword]
        rfl
      omega
  | applied _ chars _ _ =>
      refine absurd ?_ hfunction
      rw [List.append_assoc]
      exact functionLength_run_append chars (by simp [isAtomChar, isWord])

/-- What is measured as an alternative is no shorter than one at the start of the text. -/
theorem IsAlternative.le_alternativeLength_append {text : Text} (h : IsAlternative text)
    (rest : Text) : text.length ≤ alternativeLength (text ++ rest) := by
  cases h with
  | atom isAtom =>
      by_cases hfunction : functionLength (text ++ rest) = 0
      · rw [alternativeLength_of_atom hfunction]
        exact isAtom.le_atomLength_append rest
      · rw [alternativeLength_of_function hfunction]
        exact isAtom.le_functionLength_append hfunction
  | @function params isParams =>
      have hlen : functionLength ("fun(".toList ++ (params ++ [')']) ++ rest) =
          4 + (params.length + 1) + resultLength rest := by
        rw [List.append_assoc, List.append_assoc, List.singleton_append,
          functionLength_append isParams]
      rw [alternativeLength_of_function (by omega), hlen]
      simp only [List.length_append, length_opening, List.length_singleton]
      omega
  | @functionTo params before after result isParams blank_before blank_after isAtom =>
      have hatom := isAtom.le_atomLength_append rest
      have hne := isAtom.length_ne_zero
      have hlen := functionLength_functionTo_append isParams blank_before blank_after
        (isAtom.head_not_blank rest) (by omega)
      simp only [List.append_assoc, List.cons_append]
      rw [alternativeLength_of_function (by omega), hlen]
      simp only [List.length_append, List.length_cons, length_opening]
      omega

/-! ## Expressions -/

/-- What is read is no shorter than a union at the start of the text. -/
theorem IsUnion.le_length_append {text : Text} (h : IsUnion text) (rest : Text) :
    text.length ≤ length (text ++ rest) := by
  obtain ⟨front, last, rfl, hlast, hread⟩ := h.exists_last
  have hne := hlast.length_ne_zero
  have hle := hlast.le_alternativeLength_append rest
  have hlength := @length_eq (last ++ rest) (by omega)
  rw [hread rest (by omega), List.length_append]
  omega

/-- The question mark behind a union is read with it. -/
theorem IsUnion.le_length_append_question {text : Text} (h : IsUnion text) (rest : Text) :
    text.length + 1 ≤ length (text ++ '?' :: rest) := by
  obtain ⟨front, last, rfl, hlast, hread⟩ := h.exists_last
  have hne := hlast.length_ne_zero
  have hle := hlast.le_alternativeLength_append ('?' :: rest)
  have hlength := @length_eq (last ++ '?' :: rest) (by omega)
  have hmark : last.length + 1 ≤ length (last ++ '?' :: rest) := by
    by_cases hexact : alternativeLength (last ++ '?' :: rest) = last.length
    · -- the mark is left for the end of the expression
      rw [hexact, List.drop_left, tailLength_question] at hlength
      omega
    · omega
  rw [hread _ (by omega), List.length_append]
  omega

/-- What is read is no shorter than any type expression at the start of the text. -/
theorem le_length_append {text : Text} (h : IsTypeExpr text) (rest : Text) :
    text.length ≤ length (text ++ rest) := by
  cases h with
  | plain union => exact union.le_length_append rest
  | optional union =>
      rw [List.append_assoc, List.length_append]
      exact union.le_length_append_question rest

/-- The expression that is read is as long as was measured. -/
theorem length_of_read? {text expr rest : Text} (h : read? text = some (expr, rest)) :
    length text = expr.length := by
  obtain ⟨hne, hsplit⟩ := Option.ite_none_left_eq_some.mp h
  obtain ⟨part, behind, htext, hpart, -⟩ := takes_expr hne
  rw [← hpart, List.splitAt_eq, htext, List.take_left, Option.some.injEq, Prod.mk.injEq] at hsplit
  rw [← hpart, hsplit.1]

/-- **The expression that is read is the longest** at the start of the text, and one is read if
there is any. -/
theorem read?_eq_some_iff {text expr rest : Text} :
    read? text = some (expr, rest) ↔
      text = expr ++ rest ∧ IsTypeExpr expr ∧
        ∀ other behind, text = other ++ behind → IsTypeExpr other →
          other.length ≤ expr.length := by
  constructor
  · intro h
    obtain ⟨htext, hexpr⟩ := isTypeExpr_of_read? h
    refine ⟨htext, hexpr, ?_⟩
    rintro other behind rfl hother
    rw [← length_of_read? h]
    exact le_length_append hother behind
  · rintro ⟨rfl, hexpr, hlongest⟩
    -- something is read, it is no shorter than `expr`, and `expr` is no shorter than it
    have hle := le_length_append hexpr rest
    have hne : expr.length ≠ 0 := by simpa using hexpr.ne_nil
    obtain ⟨part, behind, hsplit, hpart, hisExpr⟩ := @takes_expr (expr ++ rest) (by omega)
    have hge : part.length ≤ expr.length := hlongest part behind hsplit hisExpr
    have hlen : length (expr ++ rest) = expr.length := by omega
    rw [read?, hlen, if_neg hne, List.splitAt_eq, List.take_left, List.drop_left]

/-- **Reading takes exactly a type expression.** One that a blank and no colon follow is taken
whole; and whatever the text, what is taken is a type expression, the longest at its start. -/
theorem reads_exactly_typeExpr :
    (∀ expr rest : Text, IsTypeExpr expr → EndsExpr rest →
      read? (expr ++ rest) = some (expr, rest)) ∧
    ∀ text expr rest : Text, read? text = some (expr, rest) ↔
      text = expr ++ rest ∧ IsTypeExpr expr ∧
        ∀ other behind, text = other ++ behind → IsTypeExpr other →
          other.length ≤ expr.length :=
  ⟨fun _ _ hexpr hrest => read?_append hexpr hrest, fun _ _ _ => read?_eq_some_iff⟩

/-- A function type with a function among its parameters, or no value. -/
def callbackType : Text := "fun(cb: fun(): nil): table<string, any>|nil?".toList

theorem callbackType_isTypeExpr : IsTypeExpr callbackType :=
  isTypeExpr_iff.mpr (by decide +kernel)

theorem read?_callbackType :
    IsTypeExpr callbackType ∧ EndsExpr " the callback".toList ∧
      read? (callbackType ++ " the callback".toList) =
        some (callbackType, " the callback".toList) := by
  have hrest : EndsExpr " the callback".toList := ⟨by decide, by decide⟩
  exact ⟨callbackType_isTypeExpr, hrest,
    reads_exactly_typeExpr.1 _ _ callbackType_isTypeExpr hrest⟩

end LuaReference.TypeExpr
