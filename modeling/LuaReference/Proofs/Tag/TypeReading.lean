import LuaReference.Proofs.Tag.TypeGrammar

set_option autoImplicit false

/-! # Reading type expressions by their grammar

What is read at the start of a text is a type expression (`isTypeExpr_of_read?`). Together with
`read?_append` this says that the grammar is the reader's own: the type expressions are the texts
that are read whole (`isTypeExpr_iff`).

Each length is traced back to a part of the text that the grammar allows, in the order in which
the lengths are built up: arguments, atoms, parameter lists, results, alternatives, expressions.
-/

namespace LuaReference.TypeExpr

/-- The first `n` characters of a text have a property. -/
def Takes (P : Text → Prop) (n : Nat) (text : Text) : Prop :=
  ∃ part rest, text = part ++ rest ∧ part.length = n ∧ P part

/-! ## Atoms -/

theorem exists_arguments {text : Text} (h : argumentsLength text ≠ 0) :
    ∃ arguments rest : Text, text = '<' :: (arguments ++ '>' :: rest) ∧ arguments ≠ [] ∧
      ∀ c ∈ arguments, c ≠ '>' := by
  unfold argumentsLength at h
  split at h
  · rename_i text
    obtain ⟨arguments, rest, rfl, hinside, hrest⟩ := Text.exists_run (· != '>') text
    rw [Text.takeWhile_append hinside hrest] at h
    cases rest with
    | nil => simp at h
    | cons c rest =>
        obtain rfl : c = '>' := by simpa using hrest c rfl
        refine ⟨arguments, rest, rfl, ?_, by simpa using hinside⟩
        rintro rfl
        simp at h
  · exact absurd rfl h

theorem atomLength_eq_zero {text : Text} (h : ∀ c ∈ text.head?, isAtomChar c = false) :
    atomLength text = 0 := by
  have hrun : text.takeWhile isAtomChar = [] :=
    Text.takeWhile_append (show ∀ c ∈ ([] : Text), isAtomChar c = true by simp) h
  simp [atomLength, hrun]

/-- What is measured as an atom is one. -/
theorem takes_atom {text : Text} (h : atomLength text ≠ 0) :
    Takes IsAtom (atomLength text) text := by
  obtain ⟨run, behind, rfl, chars, hbehind⟩ := Text.exists_run isAtomChar text
  have hne : run ≠ [] := by
    rintro rfl
    exact h (atomLength_eq_zero hbehind)
  by_cases harg : argumentsLength behind = 0
  · refine ⟨run, behind, rfl, ?_, .run hne chars⟩
    rw [atomLength_run_append hne chars hbehind, harg, Nat.add_zero]
  · obtain ⟨arguments, rest, rfl, harguments, hinside⟩ := exists_arguments harg
    have htext : run ++ '<' :: (arguments ++ '>' :: rest) =
        run ++ '<' :: (arguments ++ ['>']) ++ rest := by simp
    rw [htext]
    refine ⟨_, rest, rfl, ?_, .applied hne chars harguments hinside⟩
    rw [atomLength_applied_append hne chars harguments hinside]

/-! ## Function types -/

/-- What is measured as a parameter list is one, and so is what is measured inside of an inner
parenthesis up to its end and from there on. -/
theorem exists_params (text : Text) :
    (∀ n, closeLength? false text = some n → ∃ params rest : Text,
      text = params ++ ')' :: rest ∧ params.length + 1 = n ∧ IsParams params) ∧
    ∀ n, closeLength? true text = some n → ∃ inner params rest : Text,
      text = inner ++ ')' :: (params ++ ')' :: rest) ∧
        inner.length + 1 + (params.length + 1) = n ∧ (∀ c ∈ inner, Flat c) ∧
          IsParams params := by
  induction text with
  | nil => exact ⟨by simp [closeLength?], by simp [closeLength?]⟩
  | cons c text ih =>
      obtain ⟨houter, hinner⟩ := ih
      constructor
      · -- outside: an opening parenthesis begins a group, which `hinner` finds
        intro n hn
        rw [closeLength?] at hn
        split at hn
        · rename_i hclose
          obtain rfl : 1 = n := Option.some.inj hn
          exact ⟨[], text, by rw [hclose]; rfl, rfl, .nil⟩
        · rename_i hclose
          split at hn
          · rename_i hopen
            obtain ⟨m, hm, rfl⟩ := Option.map_eq_some_iff.mp hn
            obtain ⟨inner, params, rest, rfl, hlen, hflat, hparams⟩ := hinner m hm
            refine ⟨'(' :: (inner ++ ')' :: params), rest, ?_, ?_, .group hflat hparams⟩
            · simp [hopen]
            · simp only [List.length_cons, List.length_append]
              omega
          · rename_i hopen
            obtain ⟨m, hm, rfl⟩ := Option.map_eq_some_iff.mp hn
            obtain ⟨params, rest, rfl, hlen, hparams⟩ := houter m hm
            refine ⟨c :: params, rest, rfl, ?_, .char ⟨hopen, hclose⟩ hparams⟩
            rw [List.length_cons, hlen]
      · -- inside: a closing parenthesis ends the group, and no further one may be opened
        intro n hn
        rw [closeLength?] at hn
        split at hn
        · rename_i hclose
          obtain ⟨m, hm, rfl⟩ := Option.map_eq_some_iff.mp hn
          obtain ⟨params, rest, rfl, hlen, hparams⟩ := houter m hm
          refine ⟨[], params, rest, by rw [hclose]; rfl, ?_, by simp, hparams⟩
          rw [List.length_nil, hlen]
          omega
        · rename_i hclose
          split at hn
          · exact absurd hn (by simp)
          · rename_i hopen
            obtain ⟨m, hm, rfl⟩ := Option.map_eq_some_iff.mp hn
            obtain ⟨inner, params, rest, rfl, hlen, hflat, hparams⟩ := hinner m hm
            refine ⟨c :: inner, params, rest, rfl, ?_, ?_, hparams⟩
            · rw [List.length_cons]
              omega
            · intro d hd
              rcases List.mem_cons.mp hd with rfl | hd
              · exact ⟨hopen, hclose⟩
              · exact hflat d hd

/-- What is measured as the result of a function type is one. -/
theorem exists_result {text : Text} (h : resultLength text ≠ 0) :
    ∃ before after atom rest : Text, text = before ++ ':' :: (after ++ (atom ++ rest)) ∧
      (∀ c ∈ before, isBlank c = true) ∧ (∀ c ∈ after, isBlank c = true) ∧ IsAtom atom ∧
        before.length + 1 + after.length + atom.length = resultLength text := by
  obtain ⟨before, behind, rfl, hbefore, hbehind⟩ := Text.exists_run isBlank text
  have hskip : Text.skipBlanks (before ++ behind) = behind := by
    rw [Text.skipBlanks_append hbefore, Text.skipBlanks_eq_self hbehind]
  unfold resultLength at h
  split at h
  · rename_i result hcolon
    obtain rfl : behind = ':' :: result := hskip.symm.trans hcolon
    obtain ⟨after, text, rfl, hafter, htext⟩ := Text.exists_run isBlank result
    have hatom : atomLength text ≠ 0 := by
      rintro hzero
      rw [Text.skipBlanks_append hafter, Text.skipBlanks_eq_self htext, hzero] at h
      exact h (if_pos rfl)
    obtain ⟨atom, rest, rfl, hlen, hatom'⟩ := takes_atom hatom
    refine ⟨before, after, atom, rest, rfl, hbefore, hafter, hatom', ?_⟩
    rw [resultLength_append hbefore hafter htext hatom, hlen]
  · exact absurd rfl h

/-- What is measured as a function type is one. -/
theorem takes_function {text : Text} (h : functionLength text ≠ 0) :
    Takes IsAlternative (functionLength text) text := by
  unfold functionLength at h
  split at h
  · exact absurd rfl h
  · rename_i behind hbehind
    obtain rfl : "fun(".toList ++ behind = text := List.isPrefixOf?_eq_some_iff_append_eq.mp hbehind
    split at h
    · exact absurd rfl h
    · rename_i close hclose
      obtain ⟨params, rest, rfl, hlen, hparams⟩ := (exists_params behind).1 close hclose
      have hlength := functionLength_append hparams rest
      by_cases hresult : resultLength rest = 0
      · refine ⟨"fun(".toList ++ (params ++ [')']), rest, ?_, ?_, .function hparams⟩
        · simp
        · rw [hlength, hresult, Nat.add_zero]
          simp only [List.length_append, length_opening, List.length_singleton]
      · obtain ⟨before, after, atom, rest, rfl, hb, ha, hatom, hsum⟩ := exists_result hresult
        refine ⟨"fun(".toList ++ (params ++ ')' :: (before ++ ':' :: (after ++ atom))), rest, ?_,
          ?_, .functionTo hparams hb ha hatom⟩
        · simp
        · rw [hlength, ← hsum]
          simp only [List.length_append, List.length_cons, length_opening]
          omega

/-! ## Expressions -/

/-- What is measured as an alternative is one. -/
theorem takes_alternative {text : Text} (h : alternativeLength text ≠ 0) :
    Takes IsAlternative (alternativeLength text) text := by
  by_cases hfunction : functionLength text = 0
  · rw [alternativeLength_of_atom hfunction] at h ⊢
    obtain ⟨atom, rest, htext, hlen, hatom⟩ := takes_atom h
    exact ⟨atom, rest, htext, hlen, .atom hatom⟩
  · rw [alternativeLength_of_function hfunction]
    exact takes_function hfunction

/-- A further alternative in front of an expression leaves its mark at the end. -/
theorem IsTypeExpr.cons {first rest : Text} (hfirst : IsAlternative first)
    (hrest : IsTypeExpr rest) : IsTypeExpr (first ++ '|' :: rest) := by
  cases hrest with
  | plain union => exact .plain (.more hfirst union)
  | @optional text union =>
      have hassoc : first ++ '|' :: (text ++ ['?']) = first ++ '|' :: text ++ ['?'] := by simp
      rw [hassoc]
      exact .optional (.more hfirst union)

/-- What is measured as an expression is one. The induction is on the text, of which each
alternative takes a part away. -/
theorem takes_expr {text : Text} (h : length text ≠ 0) : Takes IsTypeExpr (length text) text := by
  induction hn : text.length using Nat.strong_induction_on generalizing text with
  | _ n ih =>
  have hfirst : alternativeLength text ≠ 0 := fun hzero => h (length_eq_zero hzero)
  obtain ⟨first, behind, rfl, hlen, hpart⟩ := takes_alternative hfirst
  have hlength : length (first ++ behind) = first.length + tailLength behind := by
    rw [length_eq hfirst, ← hlen, List.drop_left]
  rw [hlength]
  by_cases htail : tailLength behind = 0
  · exact ⟨first, behind, rfl, by omega, .plain (.one hpart)⟩
  · unfold tailLength at htail
    split at htail
    · -- a bar: what is measured behind it is an expression again
      rename_i more
      have halternative : alternativeLength more ≠ 0 := by
        intro hzero
        simp only [hzero, if_true, not_true_eq_false] at htail
      have hmore : length more ≠ 0 := by
        rw [length_eq halternative]
        omega
      have hless : more.length < n := by
        rw [← hn, List.length_append, List.length_cons]
        omega
      obtain ⟨part, rest, rfl, hpartlen, hexpr⟩ := ih more.length hless hmore rfl
      refine ⟨first ++ '|' :: part, rest, by simp, ?_, hexpr.cons hpart⟩
      rw [tailLength_bar hmore, List.length_append, List.length_cons]
      omega
    · rename_i more
      refine ⟨first ++ ['?'], more, by simp, ?_, .optional (.one hpart)⟩
      rw [tailLength_question, List.length_append, List.length_singleton]
    · exact absurd rfl htail

/-- **What is read is a type expression**, and all of it was there. -/
theorem isTypeExpr_of_read? {text expr rest : Text} (h : read? text = some (expr, rest)) :
    text = expr ++ rest ∧ IsTypeExpr expr := by
  unfold read? at h
  split at h
  · cases h
  · rename_i hlength
    obtain ⟨part, behind, rfl, hlen, hexpr⟩ := takes_expr hlength
    rw [← hlen, List.splitAt_eq, List.take_left, List.drop_left] at h
    obtain ⟨rfl, rfl⟩ := Prod.mk.inj (Option.some.inj h)
    exact ⟨rfl, hexpr⟩

/-- **The grammar and the reader agree**: a text is a type expression if it is read whole. -/
theorem isTypeExpr_iff {text : Text} : IsTypeExpr text ↔ read? text = some (text, []) := by
  constructor
  · intro h
    have hread := read?_append h .nil
    rwa [List.append_nil] at hread
  · exact fun h => (isTypeExpr_of_read? h).2

end LuaReference.TypeExpr
