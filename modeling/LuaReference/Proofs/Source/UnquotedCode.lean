import LuaReference.Proofs.Source.WrittenCode

set_option autoImplicit false

/-! # Code without string literals

Where no string literal begins in the code of a line (`NoLiterals`), emptying the literals leaves
the code as it is, whatever quotes stand in the comment. So the braces of the line are those in
front of its comment (`braceBalance_of_unquoted`), with the comment and without it, and with blanks
around it or without them (`braceBalance_ofLine`).

Literals are found from the start of the line on, so for the lemmas the condition is told character
by character (`Unquoted`), and then it holds of what is behind a place in the code and of what is in
front of one as well.
-/

namespace LuaReference.Code

/-- No string literal begins in the code of the line. -/
def NoLiterals (line : Text) : Prop :=
  ∀ span ∈ literalSpans line, (Text.cutAt commentMarker line).length ≤ span.1

instance : DecidablePred NoLiterals := fun line =>
  inferInstanceAs (Decidable (∀ span ∈ literalSpans line, _ ≤ span.1))

/-- A text in which no string literal begins in front of the first comment mark. -/
inductive Unquoted : Text → Prop
  | nil : Unquoted []
  | comment {text : Text} (mark : commentMarker <+: text) : Unquoted text
  | cons {c : Char} {rest : Text} (plain : quotedLength (c :: rest) = 0) (tail : Unquoted rest) :
      Unquoted (c :: rest)

theorem unquoted_of_literalSpansFrom {start : Nat} {text : Text}
    (h : ∀ span ∈ literalSpansFrom start 0 text,
      start + (Text.cutAt commentMarker text).length ≤ span.1) : Unquoted text := by
  induction text generalizing start with
  | nil => exact .nil
  | cons c rest ih =>
      by_cases hmark : commentMarker.isPrefixOf (c :: rest) = true
      · exact .comment (List.isPrefixOf_iff_prefix.mp hmark)
      · rw [Text.cutAt_cons, if_neg hmark, List.length_cons] at h
        have hplain : quotedLength (c :: rest) = 0 := by
          by_contra hquoted
          have hspan := h (start, start + quotedLength (c :: rest)) (by
            simp [literalSpansFrom, hquoted])
          simp only at hspan
          omega
        rw [literalSpansFrom] at h
        simp only [hplain, if_true] at h
        refine .cons hplain (@ih (start + 1) fun span hspan => ?_)
        have hfar := h span hspan
        omega

theorem NoLiterals.unquoted {line : Text} (h : NoLiterals line) : Unquoted line := by
  refine @unquoted_of_literalSpansFrom 0 line fun span hspan => ?_
  rw [Nat.zero_add]
  exact h span hspan

theorem Unquoted.of_plain {text : Text} (h : ∀ c ∈ text, c ≠ '\'' ∧ c ≠ '"') : Unquoted text := by
  induction text with
  | nil => exact .nil
  | cons c rest ih =>
      refine .cons (quotedLength_eq_zero (h c List.mem_cons_self) rest) (ih fun d hd => ?_)
      exact h d (List.mem_cons_of_mem c hd)

/-! ## Parts of a line -/

/-- A literal that is closed in front of a place is the same for every text behind the place. -/
theorem literalLength?_append_of_eq_some {quote : Char} (hq : quote ≠ '\\') {text : Text} {n : Nat}
    (h : literalLength? quote text = some n) (behind : Text) :
    literalLength? quote (text ++ behind) = some n := by
  induction text using literalLength?.induct quote generalizing n with
  | case1 => cases h
  | case2 rest => simp [literalLength?] at h
  | case3 c rest hc ih =>
      rw [literalLength?, if_neg hc] at h
      obtain ⟨m, hm, rfl⟩ := Option.map_eq_some_iff.mp h
      rw [List.cons_append, List.cons_append, literalLength?, if_neg hc, ih hm]
      rfl
  | case4 rest _ =>
      rw [literalLength?_quote hq] at h
      rw [List.cons_append, literalLength?_quote hq, h]
  | case5 rest hrest hne =>
      rw [literalLength?, if_neg hne, if_pos rfl] at h
      · cases h
      · exact hrest
  | case6 c rest _ hc hslash ih =>
      rw [literalLength?, if_neg hc, if_neg hslash] at h
      · obtain ⟨m, hm, rfl⟩ := Option.map_eq_some_iff.mp h
        rw [List.cons_append, literalLength?, if_neg hc, if_neg hslash, ih hm]
        · rfl
        · exact fun _ _ heq => absurd heq hslash
      · exact fun _ _ heq => absurd heq hslash

theorem quotedLength_of_isPrefix {front text : Text} (hp : front <+: text)
    (h : quotedLength text = 0) : quotedLength front = 0 := by
  obtain ⟨behind, rfl⟩ := hp
  cases front with
  | nil => rfl
  | cons c front =>
      rw [List.cons_append, quotedLength] at h
      rw [quotedLength]
      split
      · rename_i hquote
        rw [if_pos hquote] at h
        have hslash : c ≠ '\\' := by
          rintro rfl
          exact absurd hquote (by decide)
        cases hlength : literalLength? c front with
        | none => rfl
        | some n =>
            rw [literalLength?_append_of_eq_some hslash hlength] at h
            cases h
      · rfl

/-- The condition holds of what is in front of a place. -/
theorem Unquoted.of_isPrefix {front text : Text} (h : Unquoted text) (hp : front <+: text) :
    Unquoted front := by
  induction h generalizing front with
  | nil =>
      obtain rfl := List.prefix_nil.mp hp
      exact .nil
  | comment mark =>
      rcases List.prefix_or_prefix_of_prefix hp mark with hshort | hlong
      · have hplain : ∀ c ∈ commentMarker, c ≠ '\'' ∧ c ≠ '"' := by decide
        exact .of_plain fun c hc => hplain c (hshort.subset hc)
      · exact .comment hlong
  | cons plain _ ih =>
      cases front with
      | nil => exact .nil
      | cons d front =>
          obtain ⟨rfl, hrest⟩ := List.cons_prefix_cons.mp hp
          exact .cons (quotedLength_of_isPrefix hp plain) (ih hrest)

/-- And of what is behind a place in the code. -/
theorem Unquoted.of_append {front behind : Text} (h : Unquoted (front ++ behind))
    (hcode : front <+: Text.cutAt commentMarker (front ++ behind)) : Unquoted behind := by
  induction front with
  | nil => exact h
  | cons c front ih =>
      rw [List.cons_append, Text.cutAt_cons] at hcode
      split at hcode
      · cases List.prefix_nil.mp hcode
      · rename_i hmark
        have hrest := (List.cons_prefix_cons.mp hcode).2
        cases h with
        | comment mark => exact absurd (List.isPrefixOf_iff_prefix.mpr mark) hmark
        | cons _ tail => exact ih tail hrest

theorem Unquoted.trim {text : Text} (h : Unquoted text) : Unquoted (Text.trim text) := by
  obtain ⟨front, back, htext, hfront, -⟩ := Text.eq_blanks_append_trim text
  rw [htext, List.append_assoc] at h
  have hdash : ∀ c ∈ front, c ≠ '-' := fun c hc => ne_of_test (hfront c hc) (by decide)
  have hcode : front <+: Text.cutAt commentMarker (front ++ (Text.trim text ++ back)) := by
    rw [show commentMarker = '-' :: ['-'] from rfl, Text.cutAt_append hdash]
    exact List.prefix_append _ _
  exact (h.of_append hcode).of_isPrefix (List.prefix_append _ _)

/-! ## Braces -/

/-- A comment mark is two hyphens, so of what is behind the first only one more character counts. -/
theorem isPrefixOf_cons_congr {c : Char} {rest rest' : Text}
    (h : rest.head? = some '-' ↔ rest'.head? = some '-') :
    commentMarker.isPrefixOf (c :: rest) = commentMarker.isPrefixOf (c :: rest') := by
  have hmark (behind : Text) :
      commentMarker.isPrefixOf (c :: behind) = true ↔ c = '-' ∧ behind.head? = some '-' := by
    rw [List.isPrefixOf_iff_prefix]
    cases behind <;> simp [commentMarker, eq_comm]
  rw [Bool.eq_iff_iff, hmark, hmark, h]

theorem head_emptyLiterals (text : Text) :
    (emptyLiterals text).head? = some '-' ↔ text.head? = some '-' := by
  cases text with
  | nil => rfl
  | cons c rest =>
      by_cases hplain : quotedLength (c :: rest) = 0
      · rw [emptyLiterals_cons_of_quotedLength hplain]
        rfl
      · have hdash : c ≠ '-' := by
          rintro rfl
          exact hplain (quotedLength_eq_zero (by decide) rest)
        simp [emptyLiterals, emptyLiteralsFrom, hplain, hdash]

/-- Emptying the literals leaves the code as it is. -/
theorem Unquoted.cutAt_emptyLiterals {text : Text} (h : Unquoted text) :
    Text.cutAt commentMarker (emptyLiterals text) = Text.cutAt commentMarker text := by
  induction h with
  | nil => rfl
  | comment mark =>
      obtain ⟨comment, rfl⟩ := mark
      have hempty : emptyLiterals (commentMarker ++ comment) =
          commentMarker ++ emptyLiterals comment := by
        show emptyLiterals ('-' :: '-' :: comment) = _
        rw [emptyLiterals_cons (by decide), emptyLiterals_cons (by decide)]
        rfl
      rw [hempty, Text.cutAt_mark (by decide), Text.cutAt_mark (by decide)]
  | @cons c rest plain _ ih =>
      rw [emptyLiterals_cons_of_quotedLength plain, Text.cutAt_cons, Text.cutAt_cons, ih,
        isPrefixOf_cons_congr (head_emptyLiterals rest)]

/-- The braces are counted in front of the comment. -/
theorem braceBalance_of_unquoted {text : Text} (h : Unquoted text) :
    braceBalance text = ((Text.cutAt commentMarker text).count '\x7b' : Int) -
      (Text.cutAt commentMarker text).count '\x7d' := by
  rw [braceBalance_eq, h.cutAt_emptyLiterals]

theorem braceBalance_trim {text : Text} (h : Unquoted text) :
    braceBalance (Text.trim text) = braceBalance text := by
  have hcount {c : Char} (hc : isBlank c = false) :
      (Text.cutAt commentMarker (Text.trim text)).count c =
        (Text.cutAt commentMarker text).count c := by
    rw [← Text.count_trim hc, ← Text.count_trim hc (Text.cutAt commentMarker text)]
    exact congrArg (List.count c) (ofLine_trim text)
  rw [braceBalance_of_unquoted h.trim, braceBalance_of_unquoted h, hcount (by decide),
    hcount (by decide)]

theorem braceBalance_cutAt {text : Text} (h : Unquoted text) :
    braceBalance (Text.cutAt commentMarker text) = braceBalance text := by
  rw [braceBalance_of_unquoted (h.of_isPrefix (Text.cutAt_isPrefix _ _)),
    braceBalance_of_unquoted h, Text.cutAt_cutAt (by decide)]

/-- Neither the comment nor the blanks around the code change the braces that are counted. -/
theorem braceBalance_ofLine {line : Text} (h : Unquoted line) :
    braceBalance (ofLine line) = braceBalance (Text.trim line) := by
  have hcode : Unquoted (Text.cutAt commentMarker line) := h.of_isPrefix (Text.cutAt_isPrefix _ _)
  calc braceBalance (Text.trim (Text.cutAt commentMarker line))
      = braceBalance (Text.cutAt commentMarker line) := braceBalance_trim hcode
    _ = braceBalance line := braceBalance_cutAt h
    _ = braceBalance (Text.trim line) := (braceBalance_trim h).symm

/-! ## Lines of code and lines that are all comment -/

/-- The first character of the code of a line that is not all comment. -/
theorem head_ofLine {line : Text} (h : ¬ commentMarker <+: Text.trim line) :
    (ofLine line).head? = (Text.trim line).head? := by
  rw [← ofLine_trim]
  cases htrim : Text.trim line with
  | nil => rfl
  | cons c rest =>
      rw [htrim] at h
      have hblank : isBlank c = false := Text.head_trim line c (by rw [htrim]; rfl)
      have hink : Text.EndsInInk [c] := ⟨by simp, by simpa using hblank⟩
      have hmark : ¬ commentMarker.isPrefixOf (c :: rest) = true :=
        fun hp => h (List.isPrefixOf_iff_prefix.mp hp)
      rw [ofLine, Text.cutAt_cons, if_neg hmark, ← List.singleton_append,
        Text.trim_append hink (by simpa using hblank)]
      rfl

theorem isEmpty_ofLine {line : Text} (h : ¬ commentMarker <+: Text.trim line) :
    (ofLine line).isEmpty = (Text.trim line).isEmpty := by
  rw [Bool.eq_iff_iff, List.isEmpty_iff, List.isEmpty_iff, ← List.head?_eq_none_iff,
    ← List.head?_eq_none_iff, head_ofLine h]

/-- In front of a comment that is all of its line stand blanks only. -/
theorem not_mem_cutAt_of_comment {c : Char} (hc : isBlank c = false) {line : Text}
    (h : commentMarker <+: Text.trim line) : c ∉ Text.cutAt commentMarker line := by
  have hcode : (Text.trim (Text.cutAt commentMarker line)).count c = 0 :=
    congrArg (List.count c) (ofLine_eq_nil h)
  rw [Text.count_trim hc] at hcode
  exact List.count_eq_zero.mp hcode

/-- No comment is left in the code of a line. -/
theorem not_isPrefix_ofLine (line : Text) : ¬ commentMarker <+: ofLine line := fun h =>
  Text.not_isInfix_cutAt (by decide) line (h.isInfix.trans (Text.trim_isInfix _))

end LuaReference.Code
