import LuaReference.Proofs.Source.PathReading
import LuaReference.Source.Returns

set_option autoImplicit false

/-! # What gives a value back

A piece of code gives a value back where the word `return` stands in it with a blank behind it
(`GivesBackAt`). The search for the word finds it exactly if it stands somewhere
(`returnsValue_iff`), and on the line of a declaration it counts only behind the word `function`
(`inDeclaration_iff`).

A character that is neither a blank nor part of a word keeps what stands on its two sides apart
(`givesBackAt_append_cons`). So a line can be taken to pieces at its parentheses and its quotes, and
each piece be asked on its own.
-/

namespace LuaReference

namespace Returns

/-! ## The word that gives a value back -/

/-- Behind `front` the code has a `return` that gives back a value: a word of its own with a blank
behind it. -/
structure GivesBackAt (code front : Text) : Prop where
  occurs : ∃ blank behind, isBlank blank = true ∧
    code = front ++ ("return".toList ++ blank :: behind)
  separate : ∀ c ∈ front.getLast?, isWord c = false

/-- A piece of code that gives back a value. -/
def GivesBack (code : Text) : Prop := ∃ front, GivesBackAt code front

/-- A line of code that gives back a value behind the word `function`. -/
def GivesBackInDeclaration (code : Text) : Prop :=
  ∃ front, GivesBackAt code front ∧ "function".toList <:+: front

theorem getLast?_cons_isWord {c : Char} {front : Text} :
    (∀ d ∈ (c :: front).getLast?, isWord d = false) ↔
      (front = [] → isWord c = false) ∧ ∀ d ∈ front.getLast?, isWord d = false := by
  cases front with
  | nil => simp
  | cons e front => simp

/-- The `return` stands at the start of the code or behind its first character. -/
theorem givesBackAt_cons_cons {c d : Char} {code front : Text} :
    GivesBackAt (c :: code) (d :: front) ↔
      c = d ∧ (front = [] → isWord c = false) ∧ GivesBackAt code front := by
  constructor
  · rintro ⟨⟨blank, behind, hblank, hcode⟩, hseparate⟩
    obtain ⟨rfl, htail⟩ := List.cons.inj hcode
    obtain ⟨hfirst, hseparate⟩ := getLast?_cons_isWord.mp hseparate
    exact ⟨rfl, hfirst, ⟨⟨blank, behind, hblank, htail⟩, hseparate⟩⟩
  · rintro ⟨rfl, hfirst, ⟨blank, behind, hblank, rfl⟩, hseparate⟩
    exact ⟨⟨blank, behind, hblank, rfl⟩, getLast?_cons_isWord.mpr ⟨hfirst, hseparate⟩⟩

theorem givesBackAt_nil_iff (code : Text) :
    GivesBackAt code [] ↔ (Tag.afterKeyword? "return".toList code).isSome = true := by
  rw [Tag.isSome_afterKeyword?]
  exact ⟨fun h => h.occurs, fun h => ⟨h, by simp⟩⟩

/-- The search finds a `return`, behind a text that ends in a word or does not. -/
theorem isSome_findFrom (inWord : Bool) (code : Text) :
    (findFrom inWord code).isSome = true ↔
      ∃ front, GivesBackAt code front ∧ (front = [] → inWord = false) := by
  induction code generalizing inWord with
  | nil =>
      refine iff_of_false Bool.false_ne_true ?_
      rintro ⟨front, ⟨⟨blank, behind, -, h⟩, -⟩, -⟩
      have hlen := congrArg List.length h
      simp at hlen
  | cons c code ih =>
      rw [findFrom]
      split
      · rename_i behind hfound
        refine iff_of_true rfl ⟨[], (givesBackAt_nil_iff _).mpr ?_, fun _ => ?_⟩
        · cases inWord with
          | true => cases hfound
          | false => exact Option.isSome_of_eq_some hfound
        · cases inWord with
          | true => cases hfound
          | false => rfl
      · rename_i hnone
        have hhere : ¬ (GivesBackAt (c :: code) [] ∧ inWord = false) := by
          rintro ⟨hgives, rfl⟩
          rw [givesBackAt_nil_iff] at hgives
          rw [if_neg Bool.false_ne_true] at hnone
          rw [hnone] at hgives
          cases hgives
        rw [Option.isSome_map, ih]
        constructor
        · rintro ⟨front, hgives, hfirst⟩
          exact ⟨c :: front, givesBackAt_cons_cons.mpr ⟨rfl, hfirst, hgives⟩, by simp⟩
        · rintro ⟨front, hgives, hfirst⟩
          cases front with
          | nil => exact absurd ⟨hgives, hfirst rfl⟩ hhere
          | cons d front =>
              obtain ⟨-, hword, hgives⟩ := givesBackAt_cons_cons.mp hgives
              exact ⟨front, hgives, hword⟩

/-- **The search finds exactly the words that give back a value.** -/
theorem returnsValue_iff (code : Text) : returnsValue code = true ↔ GivesBack code := by
  rw [returnsValue, find, isSome_findFrom]
  simp [GivesBack]

/-- A `return` behind the start of the word `function` stands behind all of it. -/
theorem GivesBackAt.isPrefix {code front : Text} (h : GivesBackAt code front)
    (hf : "function".toList <+: code) : "function".toList <+: front := by
  obtain ⟨blank, behind, -, rfl⟩ := h.occurs
  obtain ⟨rest, hrest⟩ := hf
  rcases List.append_eq_append_iff.mp hrest with ⟨more, hmore, -⟩ | ⟨more, hmore, hbehind⟩
  · exact ⟨more, hmore.symm⟩
  · cases more with
    | nil => exact ⟨[], by simpa using hmore⟩
    | cons c more =>
        -- the word would hold an `r`
        obtain ⟨rfl, -⟩ : 'r' = c ∧ _ := List.cons.inj hbehind
        have hmem : 'r' ∈ "function".toList :=
          hmore ▸ List.mem_append_right front List.mem_cons_self
        exact absurd hmem (by decide)

/-- From the first `function` on a line gives back a value exactly if it does so behind some
`function`. -/
theorem any_fromFunction? (code : Text) :
    (fromFunction? code).any returnsValue = true ↔ GivesBackInDeclaration code := by
  induction code with
  | nil =>
      refine iff_of_false Bool.false_ne_true ?_
      rintro ⟨front, ⟨⟨blank, behind, -, h⟩, -⟩, -⟩
      have hlen := congrArg List.length h
      simp at hlen
  | cons c code ih =>
      rw [fromFunction?]
      by_cases hhere : "function".toList.isPrefixOf (c :: code) = true
      · rw [if_pos hhere, Option.any_some, returnsValue_iff]
        have hstart : "function".toList <+: c :: code := List.isPrefixOf_iff_prefix.mp hhere
        exact ⟨fun ⟨front, h⟩ => ⟨front, h, (h.isPrefix hstart).isInfix⟩,
          fun ⟨front, h, _⟩ => ⟨front, h⟩⟩
      · rw [if_neg hhere, ih]
        constructor
        · rintro ⟨front, hgives, hinfix⟩
          have hne : front ≠ [] := by
            rintro rfl
            exact absurd hinfix (by decide)
          exact ⟨c :: front, givesBackAt_cons_cons.mpr ⟨rfl, fun h => absurd h hne, hgives⟩,
            hinfix.trans (List.suffix_cons c front).isInfix⟩
        · rintro ⟨front, hgives, hinfix⟩
          cases front with
          | nil => exact absurd hinfix (by decide)
          | cons d front =>
              obtain ⟨rfl, -, hrest⟩ := givesBackAt_cons_cons.mp hgives
              refine ⟨front, hrest, (List.infix_cons_iff.mp hinfix).resolve_left fun hstart => ?_⟩
              obtain ⟨blank, behind, -, hcode⟩ := hgives.occurs
              exact hhere (List.isPrefixOf_iff_prefix.mpr
                (hstart.trans (hcode ▸ List.prefix_append _ _)))

theorem inDeclaration_iff (line : Text) :
    inDeclaration line = true ↔ GivesBackInDeclaration (Code.ofLine line) :=
  any_fromFunction? _

/-- On a line that begins with `function` every value that is given back counts. -/
theorem givesBackInDeclaration_iff {code : Text} (h : "function".toList <+: code) :
    GivesBackInDeclaration code ↔ GivesBack code :=
  ⟨fun ⟨front, hgives, _⟩ => ⟨front, hgives⟩,
    fun ⟨front, hgives⟩ => ⟨front, hgives, (hgives.isPrefix h).isInfix⟩⟩

/-! ## Two sides of a separator -/

section Separator

variable {separator : Char} (hw : isWord separator = false) (hb : isBlank separator = false)

include hw hb

/-- **A `return` stands on one side of a separator**, with its blank. -/
theorem givesBackAt_append_cons {front rest place : Text} :
    GivesBackAt (front ++ separator :: rest) place ↔
      GivesBackAt front place ∨
        ∃ more, place = front ++ separator :: more ∧ GivesBackAt rest more := by
  constructor
  · rintro ⟨⟨blank, behind, hblank, hcode⟩, hseparate⟩
    have hkey : separator ∉ "return".toList ++ [blank] := by
      rw [List.mem_append, List.mem_singleton, not_or]
      refine ⟨fun hmem => ?_, ?_⟩
      · have hletters : ∀ c ∈ "return".toList, isWord c = true := by decide
        rw [hletters separator hmem] at hw
        cases hw
      · rintro rfl
        rw [hblank] at hb
        cases hb
    rcases List.append_eq_append_iff.mp hcode with ⟨more, rfl, hmore⟩ | ⟨more, rfl, hmore⟩
    · cases more with
      | nil =>
          -- the separator would be the first character of the word
          obtain ⟨rfl, -⟩ : separator = 'r' ∧ _ := List.cons.inj hmore
          exact absurd hw (by decide)
      | cons c more =>
          obtain ⟨rfl, rfl⟩ := List.cons.inj hmore
          rw [List.getLast?_append_of_ne_nil _ (by simp)] at hseparate
          obtain ⟨-, hseparate⟩ := getLast?_cons_isWord.mp hseparate
          exact .inr ⟨more, rfl, ⟨blank, behind, hblank, rfl⟩, hseparate⟩
    · have hsplit : ("return".toList ++ [blank]) ++ behind = more ++ separator :: rest := by
        rw [← hmore, List.append_assoc]
        rfl
      obtain ⟨more, rfl, -⟩ := Text.exists_of_append_eq_cons hkey hsplit
      exact .inl ⟨⟨blank, more, hblank, by simp⟩, hseparate⟩
  · rintro (⟨⟨blank, behind, hblank, rfl⟩, hseparate⟩ |
      ⟨more, rfl, ⟨⟨blank, behind, hblank, rfl⟩, hseparate⟩⟩)
    · exact ⟨⟨blank, behind ++ separator :: rest, hblank, by simp⟩, hseparate⟩
    · refine ⟨⟨blank, behind, hblank, by simp⟩, ?_⟩
      rw [List.getLast?_append_of_ne_nil _ (by simp)]
      exact getLast?_cons_isWord.mpr ⟨fun _ => hw, hseparate⟩

theorem givesBack_append_cons {front rest : Text} :
    GivesBack (front ++ separator :: rest) ↔ GivesBack front ∨ GivesBack rest := by
  simp only [GivesBack, givesBackAt_append_cons hw hb]
  constructor
  · rintro ⟨place, h | ⟨more, -, h⟩⟩
    · exact .inl ⟨place, h⟩
    · exact .inr ⟨more, h⟩
  · rintro (⟨place, h⟩ | ⟨more, h⟩)
    · exact ⟨place, .inl h⟩
    · exact ⟨_, .inr ⟨more, rfl, h⟩⟩

end Separator

end Returns

end LuaReference
