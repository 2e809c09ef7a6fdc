import LuaReference.Proofs.Text.Run
import LuaReference.Tag.TypeExpr

set_option autoImplicit false

/-! # The grammar of type expressions

`IsTypeExpr` says which texts are type expressions, independently of how they are read. The main
statement, `read?_append`, is that a type expression is read back whole from a text that goes on
with a blank and no colon. A colon there would be read as the result of a function type.

A question mark is both a character of atoms and the mark at the end of an expression, so an
expression with the mark can be read in two ways; both take the same number of characters
(`alternativeLength_append_question`).
-/

namespace LuaReference.TypeExpr

/-! ## The grammar -/

/-- Atoms: a run of characters, alone or with an argument list in angle brackets. -/
inductive IsAtom : Text → Prop
  | run {run : Text} (ne_nil : run ≠ []) (chars : ∀ c ∈ run, isAtomChar c = true) : IsAtom run
  | applied {run arguments : Text} (ne_nil : run ≠ []) (chars : ∀ c ∈ run, isAtomChar c = true)
      (arguments_ne_nil : arguments ≠ []) (inside : ∀ c ∈ arguments, c ≠ '>') :
      IsAtom (run ++ '<' :: (arguments ++ ['>']))

/-- A character that is no parenthesis. -/
def Flat (c : Char) : Prop := c ≠ '(' ∧ c ≠ ')'

/-- Parameter lists of function types: any text with parentheses one level deep. -/
inductive IsParams : Text → Prop
  | nil : IsParams []
  | char {c : Char} {rest : Text} (flat : Flat c) (tail : IsParams rest) : IsParams (c :: rest)
  | group {inner rest : Text} (flat : ∀ c ∈ inner, Flat c) (tail : IsParams rest) :
      IsParams ('(' :: (inner ++ ')' :: rest))

/-- Alternatives: atoms, and function types with or without a result. -/
inductive IsAlternative : Text → Prop
  | atom {text : Text} (isAtom : IsAtom text) : IsAlternative text
  | function {params : Text} (isParams : IsParams params) :
      IsAlternative ("fun(".toList ++ (params ++ [')']))
  | functionTo {params before after result : Text} (isParams : IsParams params)
      (blank_before : ∀ c ∈ before, isBlank c = true)
      (blank_after : ∀ c ∈ after, isBlank c = true) (isAtom : IsAtom result) :
      IsAlternative ("fun(".toList ++ (params ++ ')' :: (before ++ ':' :: (after ++ result))))

/-- Unions: one or more alternatives with bars between them. -/
inductive IsUnion : Text → Prop
  | one {text : Text} (head : IsAlternative text) : IsUnion text
  | more {text rest : Text} (head : IsAlternative text) (tail : IsUnion rest) :
      IsUnion (text ++ '|' :: rest)

/-- Type expressions: unions, with or without a question mark at the end. -/
inductive IsTypeExpr : Text → Prop
  | plain {text : Text} (union : IsUnion text) : IsTypeExpr text
  | optional {text : Text} (union : IsUnion text) : IsTypeExpr (text ++ ['?'])

/-! ## Characters -/

theorem isBlank_eq_false_of_isAtomChar {c : Char} (h : isAtomChar c = true) :
    isBlank c = false := by
  simp only [isAtomChar, Bool.or_eq_true, List.contains_iff_mem, List.mem_cons, List.not_mem_nil,
    or_false] at h
  rcases h with h | rfl | rfl | rfl | rfl
  · exact isBlank_eq_false_of_isWord h
  all_goals decide

theorem isAtomChar_eq_false_of_isBlank {c : Char} (h : isBlank c = true) :
    isAtomChar c = false := by
  by_contra hc
  rw [isBlank_eq_false_of_isAtomChar (by simpa using hc)] at h
  cases h

/-- An atom begins with a character of its run. -/
theorem IsAtom.head {text : Text} (h : IsAtom text) (rest : Text) :
    ∃ c ∈ (text ++ rest).head?, isAtomChar c = true := by
  cases h with
  | run ne_nil chars =>
      cases text with
      | nil => exact absurd rfl ne_nil
      | cons c run => exact ⟨c, rfl, chars c (by simp)⟩
  | @applied run _ ne_nil chars _ _ =>
      cases run with
      | nil => exact absurd rfl ne_nil
      | cons c run => exact ⟨c, rfl, chars c (by simp)⟩

theorem IsAtom.head_not_blank {text : Text} (h : IsAtom text) (rest : Text) :
    ∀ c ∈ (text ++ rest).head?, isBlank c = false := by
  obtain ⟨d, hd, ha⟩ := h.head rest
  intro c hc
  obtain rfl := Option.mem_unique hc hd
  exact isBlank_eq_false_of_isAtomChar ha

/-! ## What may stand behind a part

`EndsAtom`, `EndsAlternative` and `EndsExpr` say of the text behind an atom, an alternative or an
expression that it does not continue that part. -/

def EndsAtom (rest : Text) : Prop := ∀ c ∈ rest.head?, isAtomChar c = false ∧ c ≠ '<'

def EndsAlternative (rest : Text) : Prop :=
  (∀ c ∈ rest.head?, isBlank c = true ∨ c = '|') ∧ (Text.skipBlanks rest).head? ≠ some ':'

/-- The text behind an expression begins with a blank, if with anything, and not with a colon
behind its blanks. -/
def EndsExpr (rest : Text) : Prop :=
  (∀ c ∈ rest.head?, isBlank c = true) ∧ (Text.skipBlanks rest).head? ≠ some ':'

theorem EndsExpr.nil : EndsExpr [] := ⟨by simp, by simp [Text.skipBlanks]⟩

/-- A blank and a text that begins with neither a blank nor a colon end an expression. -/
theorem EndsExpr.cons {c : Char} (hc : isBlank c = true) {rest : Text}
    (hr : ∀ d ∈ rest.head?, isBlank d = false) (hcolon : rest.head? ≠ some ':') :
    EndsExpr (c :: rest) := by
  refine ⟨by simpa using hc, ?_⟩
  rw [Text.skipBlanks_cons_blank hc, Text.skipBlanks_eq_self hr]
  exact hcolon

theorem EndsExpr.endsAlternative {rest : Text} (h : EndsExpr rest) : EndsAlternative rest :=
  ⟨fun c hc => Or.inl (h.1 c hc), h.2⟩

theorem EndsAlternative.bar (rest : Text) : EndsAlternative ('|' :: rest) := by
  refine ⟨by simp, ?_⟩
  rw [Text.skipBlanks_cons (by decide)]
  simp

theorem EndsAlternative.head {rest : Text} (h : EndsAlternative rest) :
    ∀ c ∈ rest.head?, isAtomChar c = false ∧ c ≠ '<' ∧ c ≠ '(' := by
  intro c hc
  rcases h.1 c hc with hb | rfl
  · refine ⟨isAtomChar_eq_false_of_isBlank hb, ?_, ?_⟩
    · exact ne_of_test hb (by decide)
    · exact ne_of_test hb (by decide)
  · decide

theorem EndsAlternative.endsAtom {rest : Text} (h : EndsAlternative rest) : EndsAtom rest :=
  fun c hc => ⟨(h.head c hc).1, (h.head c hc).2.1⟩

/-! ## Reading atoms -/

theorem argumentsLength_eq_zero {text : Text} (h : ∀ c ∈ text.head?, c ≠ '<') :
    argumentsLength text = 0 := by
  unfold argumentsLength
  split
  · exact absurd rfl (h '<' rfl)
  · rfl

/-- A run is read up to its end, and then an argument list. -/
theorem atomLength_run_append {run rest : Text} (ne_nil : run ≠ [])
    (chars : ∀ c ∈ run, isAtomChar c = true) (hr : ∀ c ∈ rest.head?, isAtomChar c = false) :
    atomLength (run ++ rest) = run.length + argumentsLength rest := by
  have hne : run.length ≠ 0 := by simpa using ne_nil
  simp only [atomLength, Text.takeWhile_append chars hr, hne, if_false, List.drop_left]

/-- An argument list is read up to the bracket that closes it. -/
theorem argumentsLength_append {arguments : Text} (ne_nil : arguments ≠ [])
    (inside : ∀ c ∈ arguments, c ≠ '>') (rest : Text) :
    argumentsLength ('<' :: (arguments ++ '>' :: rest)) = arguments.length + 2 := by
  have harg : (arguments ++ '>' :: rest).takeWhile (· != '>') = arguments :=
    Text.takeWhile_append (by simpa using inside) (by simp)
  have hne : arguments.length ≠ 0 := by simpa using ne_nil
  have hlt : arguments.length ≠ (arguments ++ '>' :: rest).length := by
    rw [List.length_append, List.length_cons]
    omega
  simp only [argumentsLength, harg, hne, hlt, decide_false, Bool.or_self, Bool.false_eq_true,
    if_false]

theorem atomLength_applied_append {run arguments : Text} (ne_nil : run ≠ [])
    (chars : ∀ c ∈ run, isAtomChar c = true) (arguments_ne_nil : arguments ≠ [])
    (inside : ∀ c ∈ arguments, c ≠ '>') (rest : Text) :
    atomLength (run ++ '<' :: (arguments ++ ['>']) ++ rest) =
      (run ++ '<' :: (arguments ++ ['>'])).length := by
  have hopen : ∀ c ∈ ('<' :: (arguments ++ ['>']) ++ rest).head?, isAtomChar c = false := by
    simp [isAtomChar, isWord]
  have harg := argumentsLength_append arguments_ne_nil inside rest
  rw [List.append_assoc, atomLength_run_append ne_nil chars hopen, List.cons_append,
    List.append_assoc, List.singleton_append, harg, List.length_append, List.length_cons,
    List.length_append, List.length_singleton]

/-- An atom is read whole in front of a text that does not continue it. -/
theorem atomLength_append {text rest : Text} (h : IsAtom text) (hr : EndsAtom rest) :
    atomLength (text ++ rest) = text.length := by
  cases h with
  | run ne_nil chars =>
      rw [atomLength_run_append ne_nil chars (fun c hc => (hr c hc).1),
        argumentsLength_eq_zero (fun c hc => (hr c hc).2), Nat.add_zero]
  | applied ne_nil chars arguments_ne_nil inside =>
      exact atomLength_applied_append ne_nil chars arguments_ne_nil inside rest

/-- A question mark behind an atom is taken as part of its run or left. -/
theorem atomLength_append_question {text rest : Text} (h : IsAtom text) (hr : EndsAtom rest) :
    atomLength (text ++ '?' :: rest) = text.length ∨
      atomLength (text ++ '?' :: rest) = text.length + 1 := by
  cases h with
  | run ne_nil chars =>
      -- a question mark is a character of atoms, so with it the run is a longer run
      have hrun : IsAtom (text ++ ['?']) := by
        refine .run (by simp) fun c hc => ?_
        rcases List.mem_append.mp hc with hc | hc
        · exact chars c hc
        · obtain rfl := List.mem_singleton.mp hc
          decide
      have hlen := atomLength_append hrun hr
      rw [List.append_assoc, List.length_append] at hlen
      exact Or.inr hlen
  | applied ne_nil chars arguments_ne_nil inside =>
      exact Or.inl (atomLength_applied_append ne_nil chars arguments_ne_nil inside _)

/-! ## Reading function types -/

theorem closeLength?_nested {inner : Text} (h : ∀ c ∈ inner, Flat c) (rest : Text) :
    closeLength? true (inner ++ ')' :: rest) =
      (closeLength? false rest).map (· + (inner.length + 1)) := by
  induction inner with
  | nil => rfl
  | cons c inner ih =>
      obtain ⟨hopen, hclose⟩ := h c (by simp)
      rw [List.cons_append, closeLength?, if_neg hclose, if_neg hopen,
        ih (fun d hd => h d (by simp [hd])), Option.map_map]
      rfl

/-- A parameter list is read up to the parenthesis that closes it. -/
theorem closeLength?_append {params : Text} (h : IsParams params) (rest : Text) :
    closeLength? false (params ++ ')' :: rest) = some (params.length + 1) := by
  induction h with
  | nil => rfl
  | char flat _ ih =>
      rw [List.cons_append, closeLength?, if_neg flat.2, if_neg flat.1, ih]
      rfl
  | @group inner tail flat _ ih =>
      rw [List.cons_append, closeLength?, if_neg (by decide), if_pos rfl]
      rw [List.append_assoc, List.cons_append, closeLength?_nested flat, ih]
      simp only [Bool.false_eq_true, if_false, Option.map_some, List.length_cons,
        List.length_append]
      congr 1
      omega

theorem resultLength_eq_zero {text : Text} (h : (Text.skipBlanks text).head? ≠ some ':') :
    resultLength text = 0 := by
  unfold resultLength
  split
  · rename_i hcolon
    rw [hcolon] at h
    exact absurd rfl h
  · rfl

/-- The result of a function type is read behind a colon and the blanks around it. -/
theorem resultLength_append {before after text : Text} (hb : ∀ c ∈ before, isBlank c = true)
    (ha : ∀ c ∈ after, isBlank c = true) (hhead : ∀ c ∈ text.head?, isBlank c = false)
    (hne : atomLength text ≠ 0) :
    resultLength (before ++ ':' :: (after ++ text)) =
      before.length + 1 + after.length + atomLength text := by
  simp only [resultLength, Text.skipBlanks_append hb, Text.skipBlanks_cons (c := ':') (by decide),
    Text.skipBlanks_append ha, Text.skipBlanks_eq_self hhead, hne, if_false, List.length_append,
    List.length_cons]
  omega

theorem functionLength_append {params : Text} (h : IsParams params) (rest : Text) :
    functionLength ("fun(".toList ++ (params ++ ')' :: rest)) =
      4 + (params.length + 1) + resultLength rest := by
  have hdrop : (params ++ ')' :: rest).drop (params.length + 1) = rest := by
    rw [← List.singleton_append, ← List.append_assoc]
    exact List.drop_left' (by simp)
  simp only [functionLength, Text.isPrefixOf?_append, closeLength?_append h, hdrop]

/-- A run that no opening parenthesis follows begins no function type. -/
theorem functionLength_run_append {run rest : Text} (chars : ∀ c ∈ run, isAtomChar c = true)
    (hr : ∀ c ∈ rest.head?, isAtomChar c = false ∧ c ≠ '(') :
    functionLength (run ++ rest) = 0 := by
  have hnone : "fun(".toList.isPrefixOf? (run ++ rest) = none := by
    by_contra hsome
    -- then the run is `fun`, and the parenthesis begins the text behind it
    obtain ⟨behind, hbehind⟩ := Option.ne_none_iff_exists'.mp hsome
    have heq : run ++ rest = "fun".toList ++ '(' :: behind :=
      (List.isPrefixOf?_eq_some_iff_append_eq.mp hbehind).symm
    have hdrop : rest = '(' :: behind := by
      rw [← Text.dropWhile_append chars (fun c hc => (hr c hc).1), heq]
      exact Text.dropWhile_append (by decide) (by simp [isAtomChar]; decide)
    exact (hr '(' (by rw [hdrop]; rfl)).2 rfl
  rw [functionLength, hnone]

/-! ## Reading alternatives -/

theorem alternativeLength_of_function {text : Text} (h : functionLength text ≠ 0) :
    alternativeLength text = functionLength text := by
  simp only [alternativeLength, h, if_false]

theorem alternativeLength_of_atom {text : Text} (h : functionLength text = 0) :
    alternativeLength text = atomLength text := by
  simp only [alternativeLength, h, if_true]

/-- An atom begins no function type, whatever stands behind it but a parenthesis. -/
theorem functionLength_atom_append {text rest : Text} (h : IsAtom text)
    (hr : ∀ c ∈ rest.head?, isAtomChar c = false ∧ c ≠ '(') :
    functionLength (text ++ rest) = 0 := by
  cases h with
  | run _ chars => exact functionLength_run_append chars hr
  | applied _ chars _ _ =>
      rw [List.append_assoc]
      exact functionLength_run_append chars (by simp [isAtomChar, isWord])

/-- The same with a question mark in between, which the run of the atom may take. -/
theorem functionLength_atom_append_question {text rest : Text} (h : IsAtom text)
    (hr : ∀ c ∈ rest.head?, isAtomChar c = false ∧ c ≠ '(') :
    functionLength (text ++ '?' :: rest) = 0 := by
  cases h with
  | run _ chars =>
      have hchars : ∀ c ∈ text ++ ['?'], isAtomChar c = true := by
        intro c hc
        rcases List.mem_append.mp hc with hc | hc
        · exact chars c hc
        · obtain rfl := List.mem_singleton.mp hc
          decide
      have hzero := functionLength_run_append hchars hr
      rwa [List.append_assoc] at hzero
  | applied _ chars _ _ =>
      rw [List.append_assoc]
      exact functionLength_run_append chars (by simp [isAtomChar, isWord])

theorem IsAtom.length_ne_zero {text : Text} (h : IsAtom text) : text.length ≠ 0 := by
  cases h with
  | run ne_nil _ => simpa using ne_nil
  | applied => simp

theorem length_opening : "fun(".toList.length = 4 := rfl

/-- A function type with a result is as long as its parts. -/
theorem functionLength_functionTo_append {params before after : Text} (hp : IsParams params)
    (hb : ∀ c ∈ before, isBlank c = true) (ha : ∀ c ∈ after, isBlank c = true) {text : Text}
    (hhead : ∀ c ∈ text.head?, isBlank c = false) (hne : atomLength text ≠ 0) :
    functionLength ("fun(".toList ++ (params ++ ')' :: (before ++ ':' :: (after ++ text)))) =
      params.length + before.length + after.length + 6 + atomLength text := by
  rw [functionLength_append hp, resultLength_append hb ha hhead hne]
  omega

/-- An alternative is read whole in front of a text that does not continue it. -/
theorem alternativeLength_append {text rest : Text} (h : IsAlternative text)
    (hr : EndsAlternative rest) : alternativeLength (text ++ rest) = text.length := by
  cases h with
  | atom isAtom =>
      have hzero := functionLength_atom_append isAtom
        (fun c hc => ⟨(hr.head c hc).1, (hr.head c hc).2.2⟩)
      rw [alternativeLength_of_atom hzero, atomLength_append isAtom hr.endsAtom]
  | @function params isParams =>
      have hlen : functionLength ("fun(".toList ++ (params ++ [')']) ++ rest) =
          4 + (params.length + 1) := by
        rw [List.append_assoc, List.append_assoc, List.singleton_append,
          functionLength_append isParams, resultLength_eq_zero hr.2, Nat.add_zero]
      rw [alternativeLength_of_function (by omega), hlen]
      simp only [List.length_append, length_opening, List.length_singleton]
  | @functionTo params before after result isParams blank_before blank_after isAtom =>
      have hatom : atomLength (result ++ rest) = result.length :=
        atomLength_append isAtom hr.endsAtom
      have hlen := functionLength_functionTo_append isParams blank_before blank_after
        (isAtom.head_not_blank rest) (hatom ▸ isAtom.length_ne_zero)
      simp only [List.append_assoc, List.cons_append]
      rw [alternativeLength_of_function (by omega), hlen, hatom]
      simp only [List.length_append, List.length_cons, length_opening]
      omega

/-- A question mark behind an alternative is taken as part of its last run or left. -/
theorem alternativeLength_append_question {text rest : Text} (h : IsAlternative text)
    (hr : EndsAlternative rest) :
    alternativeLength (text ++ '?' :: rest) = text.length ∨
      alternativeLength (text ++ '?' :: rest) = text.length + 1 := by
  cases h with
  | atom isAtom =>
      have hzero := functionLength_atom_append_question isAtom
        (fun c hc => ⟨(hr.head c hc).1, (hr.head c hc).2.2⟩)
      rw [alternativeLength_of_atom hzero]
      exact atomLength_append_question isAtom hr.endsAtom
  | @function params isParams =>
      have hmark : (Text.skipBlanks ('?' :: rest)).head? ≠ some ':' := by
        rw [Text.skipBlanks_cons (by decide)]
        simp
      have hlen : functionLength ("fun(".toList ++ (params ++ [')']) ++ '?' :: rest) =
          4 + (params.length + 1) := by
        rw [List.append_assoc, List.append_assoc, List.singleton_append,
          functionLength_append isParams, resultLength_eq_zero hmark, Nat.add_zero]
      left
      rw [alternativeLength_of_function (by omega), hlen]
      simp only [List.length_append, length_opening, List.length_singleton]
  | @functionTo params before after result isParams blank_before blank_after isAtom =>
      have hatom := atomLength_append_question isAtom hr.endsAtom
      have hne : atomLength (result ++ '?' :: rest) ≠ 0 := by
        have := isAtom.length_ne_zero
        omega
      have hlen := functionLength_functionTo_append isParams blank_before blank_after
        (isAtom.head_not_blank ('?' :: rest)) hne
      simp only [List.append_assoc, List.cons_append]
      rw [alternativeLength_of_function (by omega), hlen]
      simp only [List.length_append, List.length_cons, length_opening]
      omega

/-! ## Reading expressions -/

theorem IsAlternative.length_ne_zero {text : Text} (h : IsAlternative text) :
    text.length ≠ 0 := by
  cases h with
  | atom isAtom => exact isAtom.length_ne_zero
  | function => simp
  | functionTo => simp

theorem IsUnion.length_ne_zero {text : Text} (h : IsUnion text) : text.length ≠ 0 := by
  cases h with
  | one head => exact head.length_ne_zero
  | more => simp

theorem IsTypeExpr.ne_nil {text : Text} (h : IsTypeExpr text) : text ≠ [] := by
  cases h with
  | plain union => exact List.length_pos_iff.mp (Nat.pos_of_ne_zero union.length_ne_zero)
  | optional => simp

theorem length_eq {text : Text} (h : alternativeLength text ≠ 0) :
    length text = alternativeLength text + tailLength (text.drop (alternativeLength text)) := by
  simp only [length, h, if_false]

theorem tailLength_eq_zero {rest : Text} (h : ∀ c ∈ rest.head?, isBlank c = true) :
    tailLength rest = 0 := by
  unfold tailLength
  split
  · exact absurd (h '|' rfl) (by decide)
  · exact absurd (h '?' rfl) (by decide)
  · rfl

theorem tailLength_question (rest : Text) : tailLength ('?' :: rest) = 1 := by
  unfold tailLength
  rfl

theorem length_eq_zero {text : Text} (h : alternativeLength text = 0) : length text = 0 := by
  simp only [length, h, if_true]

/-- Behind a bar an expression goes on as one begins. -/
theorem tailLength_bar {text : Text} (h : length text ≠ 0) :
    tailLength ('|' :: text) = 1 + length text := by
  have hne : alternativeLength text ≠ 0 := fun hzero => h (length_eq_zero hzero)
  rw [tailLength, length_eq hne]
  simp only [hne, if_false]
  omega

/-- A union is read like its last alternative: the bar behind each other one ends it, and what is
read in front of the last one is all of that. -/
theorem IsUnion.exists_last {text : Text} (h : IsUnion text) :
    ∃ front last, text = front ++ last ∧ IsAlternative last ∧ ∀ rest,
      length (last ++ rest) ≠ 0 → length (text ++ rest) = front.length + length (last ++ rest) := by
  induction h with
  | @one text head => exact ⟨[], text, rfl, head, fun rest _ => (Nat.zero_add _).symm⟩
  | @more text union head _ ih =>
      obtain ⟨front, last, rfl, hlast, hread⟩ := ih
      refine ⟨text ++ '|' :: front, last, by simp, hlast, fun rest hne => ?_⟩
      have hlen : alternativeLength (text ++ '|' :: (front ++ last ++ rest)) = text.length :=
        alternativeLength_append head (.bar _)
      have htext := head.length_ne_zero
      have htail := hread rest hne
      rw [List.append_assoc text, List.cons_append, length_eq (by omega), hlen, List.drop_left,
        tailLength_bar (by omega), htail, List.length_append, List.length_cons]
      omega

/-- A union is read whole in front of a text that does not continue it. -/
theorem length_append_of_union {text rest : Text} (h : IsUnion text) (hr : EndsExpr rest) :
    length (text ++ rest) = text.length := by
  obtain ⟨front, last, rfl, hlast, hread⟩ := h.exists_last
  have hlen := alternativeLength_append hlast hr.endsAlternative
  have hne := hlast.length_ne_zero
  have hlength : length (last ++ rest) = last.length := by
    rw [length_eq (by omega), hlen, List.drop_left, tailLength_eq_zero hr.1, Nat.add_zero]
  rw [hread rest (by omega), hlength, List.length_append]

/-- A union is read whole together with the question mark behind it. -/
theorem length_append_question {text rest : Text} (h : IsUnion text) (hr : EndsExpr rest) :
    length (text ++ '?' :: rest) = text.length + 1 := by
  obtain ⟨front, last, rfl, hlast, hread⟩ := h.exists_last
  have hne := hlast.length_ne_zero
  have hlength : length (last ++ '?' :: rest) = last.length + 1 := by
    rcases alternativeLength_append_question hlast hr.endsAlternative with hlen | hlen
    · -- the mark is left, and makes the expression an optional one
      rw [length_eq (by omega), hlen, List.drop_left, tailLength_question]
    · -- the mark belongs to the last run, and nothing is left
      have hdrop : (last ++ '?' :: rest).drop (last.length + 1) = rest := by
        rw [← List.singleton_append, ← List.append_assoc]
        exact List.drop_left' (by simp)
      rw [length_eq (by omega), hlen, hdrop, tailLength_eq_zero hr.1]
  rw [hread _ (by omega), hlength, List.length_append]
  omega

theorem length_append {text rest : Text} (h : IsTypeExpr text) (hr : EndsExpr rest) :
    length (text ++ rest) = text.length := by
  cases h with
  | plain union => exact length_append_of_union union hr
  | optional union =>
      rw [List.append_assoc, List.singleton_append, length_append_question union hr,
        List.length_append, List.length_singleton]

/-- **A type expression is read back** from a text that goes on with a blank and no colon. -/
theorem read?_append {text rest : Text} (h : IsTypeExpr text) (hr : EndsExpr rest) :
    read? (text ++ rest) = some (text, rest) := by
  have hne : text.length ≠ 0 := by simpa using h.ne_nil
  simp only [read?, length_append h hr, hne, if_false, List.splitAt_eq, List.take_left,
    List.drop_left]

/-! ## The two ends of an expression -/

theorem IsAlternative.head_not_blank {text : Text} (h : IsAlternative text) (rest : Text) :
    ∀ c ∈ (text ++ rest).head?, isBlank c = false := by
  cases h with
  | atom isAtom => exact isAtom.head_not_blank rest
  | function => exact Text.head_cons (by decide) _
  | functionTo => exact Text.head_cons (by decide) _

theorem IsUnion.head_not_blank {text : Text} (h : IsUnion text) (rest : Text) :
    ∀ c ∈ (text ++ rest).head?, isBlank c = false := by
  cases h with
  | one head => exact head.head_not_blank rest
  | more head _ =>
      rw [List.append_assoc]
      exact head.head_not_blank _

/-- An expression begins with no blank. -/
theorem IsTypeExpr.head_not_blank {text : Text} (h : IsTypeExpr text) (rest : Text) :
    ∀ c ∈ (text ++ rest).head?, isBlank c = false := by
  cases h with
  | plain union => exact union.head_not_blank rest
  | optional union =>
      rw [List.append_assoc]
      exact union.head_not_blank _

theorem IsAtom.getLast_not_blank {text : Text} (h : IsAtom text) :
    ∀ c ∈ text.getLast?, isBlank c = false := by
  cases h with
  | run _ chars =>
      intro c hc
      exact isBlank_eq_false_of_isAtomChar (chars c (List.mem_of_getLast? hc))
  | applied =>
      rw [← List.cons_append, ← List.append_assoc, List.getLast?_concat]
      decide

theorem IsAlternative.getLast_not_blank {text : Text} (h : IsAlternative text) :
    ∀ c ∈ text.getLast?, isBlank c = false := by
  cases h with
  | atom isAtom => exact isAtom.getLast_not_blank
  | function =>
      rw [← List.append_assoc, List.getLast?_concat]
      decide
  | @functionTo params before after result _ _ _ isAtom =>
      have hne : result ≠ [] := List.length_pos_iff.mp (Nat.pos_of_ne_zero isAtom.length_ne_zero)
      have hsplit : "fun(".toList ++ (params ++ ')' :: (before ++ ':' :: (after ++ result))) =
          "fun(".toList ++ (params ++ ')' :: (before ++ ':' :: after)) ++ result := by simp
      rw [hsplit, List.getLast?_append_of_ne_nil _ hne]
      exact isAtom.getLast_not_blank

theorem IsUnion.getLast_not_blank {text : Text} (h : IsUnion text) :
    ∀ c ∈ text.getLast?, isBlank c = false := by
  induction h with
  | one head => exact head.getLast_not_blank
  | @more text rest _ tail ih =>
      have hne : rest ≠ [] := List.length_pos_iff.mp (Nat.pos_of_ne_zero tail.length_ne_zero)
      have hsplit : text ++ '|' :: rest = (text ++ ['|']) ++ rest := by simp
      rw [hsplit, List.getLast?_append_of_ne_nil _ hne]
      exact ih

/-- An expression ends in no blank. -/
theorem IsTypeExpr.getLast_not_blank {text : Text} (h : IsTypeExpr text) :
    ∀ c ∈ text.getLast?, isBlank c = false := by
  cases h with
  | plain union => exact union.getLast_not_blank
  | optional =>
      rw [List.getLast?_concat]
      decide

/-- An expression that does not end in a question mark can be given one. -/
theorem IsTypeExpr.append_question {text : Text} (h : IsTypeExpr text)
    (hlast : text.getLast? ≠ some '?') : IsTypeExpr (text ++ ['?']) := by
  cases h with
  | plain union => exact .optional union
  | optional => exact absurd List.getLast?_concat hlast

end LuaReference.TypeExpr
