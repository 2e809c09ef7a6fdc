import LuaReference.Proofs.Returns.Occurrence
import LuaReference.Proofs.Source.MarkedReading

set_option autoImplicit false

/-! # The path that a line assigns to

The path that a line assigns to is searched for from left to right, up to the first equals sign that
a path stands in front of. The search passes over every text without an equals sign up to a
character that can stand neither in a path nor in front of the equals sign, as a comma or a
parenthesis (`target?_append_cons`).

So nothing says that the path is all of the left side of the line. Whatever the left side is, its
longest path at the end is found, and if it ends in none the search goes on in the value
(`target?_leftSide`).
-/

namespace LuaReference

namespace Declaration

/-! ## What the search passes over -/

theorem target?_cons_of_eq_none {c : Char} {text : Text} (h : assignment? (c :: text) = none) :
    target? (c :: text) = target? text := by
  rw [target?, search, h, Option.map_map]
  rfl

theorem target?_of_assignment? {text rest : Text} {path : List Text}
    (h : assignment? text = some (path, rest)) : target? text = some path := by
  rw [target?, Text.search_of_eq_some h]
  rfl

/-- An assignment begins with a word. -/
theorem assignment?_cons_eq_none {c : Char} (h : isWord c = false) (text : Text) :
    assignment? (c :: text) = none := by
  have hpath : path? (c :: text) = none := by
    rw [path?, if_neg]
    simpa [Text.startsWord] using h
  rw [assignment?, hpath]
  rfl

theorem target?_append_left {front : Text} (h : ∀ c ∈ front, isWord c = false) (text : Text) :
    target? (front ++ text) = target? text := by
  induction front with
  | nil => rfl
  | cons c front ih =>
      rw [List.cons_append,
        target?_cons_of_eq_none (assignment?_cons_eq_none (h c List.mem_cons_self) _),
        ih fun d hd => h d (List.mem_cons_of_mem _ hd)]

/-- Nothing is assigned on a line without an equals sign. -/
theorem target?_eq_none {text : Text} (h : '=' ∉ text) : target? text = none := by
  rw [target?, search_eq_none readsTo_assignment? h]
  rfl

/-- **The search passes over a text without an equals sign**, up to a character that can stand
neither in a path nor in front of the equals sign. -/
theorem target?_append_cons {front : Text} (h : '=' ∉ front) {c : Char} (hw : isWord c = false)
    (hb : isBlank c = false) (hdot : c ≠ '.') (he : c ≠ '=') (text : Text) :
    target? (front ++ c :: text) = target? text := by
  have hnone {front : Text} (h : '=' ∉ front) : assignment? (front ++ c :: text) = none := by
    by_contra hsome
    obtain ⟨⟨path, rest⟩, hread⟩ := Option.ne_none_iff_exists'.mp hsome
    obtain ⟨hpath, -, blanks, htext, hblanks⟩ := eq_assignmentText_of_assignment? hread
    have hmem : c ∉ dotted path ++ blanks := by
      rw [List.mem_append, not_or]
      refine ⟨not_mem_dotted hpath hw hdot, fun hc => ?_⟩
      rw [hblanks c hc] at hb
      cases hb
    have hsplit : (dotted path ++ blanks) ++ '=' :: rest = front ++ c :: text := by
      rw [htext, assignmentText]
      simp
    obtain ⟨more, rfl, hmore⟩ := Text.exists_of_append_eq_cons hmem hsplit
    -- the equals sign is the character, or it stands in front of it
    cases more with
    | nil => exact he (List.cons.inj hmore).1.symm
    | cons d more =>
        obtain ⟨rfl, -⟩ := List.cons.inj hmore
        exact h (by simp)
  induction front with
  | nil => exact target?_cons_of_eq_none (hnone h)
  | cons d front ih =>
      rw [List.mem_cons, not_or] at h
      have hmem : '=' ∉ d :: front := by simpa using h
      have hhere := hnone hmem
      rw [List.cons_append] at hhere ⊢
      rw [target?_cons_of_eq_none hhere, ih h.2]

/-- Nothing is assigned to a word that blanks and another word follow. -/
theorem assignment?_word_eq_none {word blanks : Text} (hw : Text.IsWord word)
    (hb : ∀ c ∈ blanks, isBlank c = true) (hne : blanks ≠ []) {text : Text}
    (ht : Text.startsWord text = true) : assignment? (word ++ (blanks ++ text)) = none := by
  have hpath : IsPath [word] := ⟨by simp, by simpa using hw⟩
  have hends : EndsPath (blanks ++ text) := Text.head_append hne (fun c hc =>
    have hblank := hb c (List.mem_of_mem_head? hc)
    ⟨isWord_eq_false_of_isBlank hblank, ne_of_test hblank (by decide)⟩) text
  have hread : path? (word ++ (blanks ++ text)) = some ([word], blanks ++ text) :=
    path?_append hpath hends
  cases text with
  | nil => cases ht
  | cons c text =>
      have hc : isWord c = true := ht
      have hskip : Text.skipBlanks (blanks ++ c :: text) = c :: text := by
        rw [Text.skipBlanks_append hb, Text.skipBlanks_cons (isBlank_eq_false_of_isWord hc)]
      have hequals : c ≠ '=' := ne_of_test hc (by decide)
      rw [assignment?, hread]
      simp only [Option.bind_eq_bind, Option.bind_some, hskip]
      split
      · rename_i heq
        exact absurd (List.cons.inj heq).1 hequals
      · rfl

/-- The search passes over a word that blanks and another word follow. -/
theorem target?_append_word {word blanks : Text} (hw : ∀ c ∈ word, isWord c = true)
    (hb : ∀ c ∈ blanks, isBlank c = true) (hne : blanks ≠ []) {text : Text}
    (ht : Text.startsWord text = true) : target? (word ++ (blanks ++ text)) = target? text := by
  induction word with
  | nil => exact target?_append_left (fun c hc => isWord_eq_false_of_isBlank (hb c hc)) text
  | cons c word ih =>
      have hhere : assignment? (c :: word ++ (blanks ++ text)) = none :=
        assignment?_word_eq_none ⟨by simp, hw⟩ hb hne ht
      rw [List.cons_append] at hhere ⊢
      rw [target?_cons_of_eq_none hhere, ih fun d hd => hw d (List.mem_cons_of_mem _ hd)]

/-! ## The left side of a line -/

/-- Whether an equals sign between two texts is part of a comparison. -/
def Compares (front behind : Text) : Prop :=
  (∃ c ∈ front.getLast?, c ∈ ['=', '~', '<', '>']) ∨ behind.head? = some '='

-- only the last character is looked at, and not all characters there are
instance (front behind : Text) : Decidable (Compares front behind) :=
  have : Decidable (∃ c ∈ front.getLast?, c ∈ ['=', '~', '<', '>']) :=
    Option.decidableExistsMem front.getLast?
  inferInstanceAs (Decidable (_ ∨ _))

/-- What stands on the two sides of the first equals sign that is not part of a comparison. -/
structure IsLeftSide (left value : Text) : Prop where
  assigns : ¬ Compares left value
  first : ∀ front behind, left = front ++ '=' :: behind → Compares front (behind ++ '=' :: value)

instance (left value : Text) : Decidable (IsLeftSide left value) :=
  decidable_of_iff (¬ Compares left value ∧ ∀ n ∈ List.range left.length,
      left[n]? = some '=' → Compares (left.take n) (left.drop (n + 1) ++ '=' :: value)) <| by
    constructor
    · rintro ⟨hassigns, hfirst⟩
      refine ⟨hassigns, ?_⟩
      rintro front behind rfl
      simpa using hfirst front.length
    · rintro ⟨hassigns, hfirst⟩
      refine ⟨hassigns, fun n hn hequals => hfirst _ _ ?_⟩
      obtain ⟨hn, hequals⟩ := List.getElem?_eq_some_iff.mp hequals
      rw [← hequals, List.getElem_cons_drop, List.take_append_drop]

/-- The path that a text consists of, up to blanks behind it. -/
def wholePath? (text : Text) : Option (List Text) :=
  match path? text with
  | none => none
  | some (path, rest) => if Text.skipBlanks rest = [] then some path else none

/-- The longest path that a text ends in, up to blanks behind it. -/
def endPath? : Text → Option (List Text)
  | [] => none
  | c :: rest => (wholePath? (c :: rest)).or (endPath? rest)

theorem wholePath?_eq_some_iff {text : Text} {path : List Text} :
    wholePath? text = some path ↔
      IsPath path ∧ ∃ blanks, text = dotted path ++ blanks ∧ ∀ c ∈ blanks, isBlank c = true := by
  constructor
  · intro h
    rw [wholePath?] at h
    split at h
    · cases h
    · rename_i words rest hread
      rw [Option.ite_none_right_eq_some] at h
      obtain ⟨hskip, hwords⟩ := h
      obtain rfl := Option.some.inj hwords
      obtain ⟨htext, hpath⟩ := eq_dotted_of_path? hread
      obtain ⟨blanks, hrest, hblanks⟩ := Text.eq_blanks_append_skipBlanks rest
      rw [hskip, List.append_nil] at hrest
      exact ⟨hpath, blanks, by rw [htext, hrest], hblanks⟩
  · rintro ⟨hpath, blanks, rfl, hblanks⟩
    have hends : EndsPath blanks := fun c hc =>
      have hblank := hblanks c (List.mem_of_mem_head? hc)
      ⟨isWord_eq_false_of_isBlank hblank, ne_of_test hblank (by decide)⟩
    have hskip : Text.skipBlanks blanks = [] := by
      have hall := Text.skipBlanks_append hblanks []
      rwa [List.append_nil] at hall
    rw [wholePath?, path?_append hpath hends]
    exact if_pos hskip

/-- A text that is a path as a whole ends in no longer one. -/
theorem endPath?_of_wholePath? {text : Text} {path : List Text}
    (h : wholePath? text = some path) : endPath? text = some path := by
  cases text with
  | nil => cases h
  | cons c rest => rw [endPath?, h, Option.some_or]

section LeftSide

variable {left value : Text}

/-- Between two places of the left side an assignment is read if the rest of the left side is a
path, and none is read that ends in a comparison. -/
theorem assignment?_leftSide (h : IsLeftSide left value) {front text : Text}
    (hl : left = front ++ text) :
    assignment? (text ++ '=' :: value) = (wholePath? text).map (·, value) := by
  have hvalue : ∀ c ∈ value.head?, c ≠ '=' := by
    rintro c hc rfl
    exact h.assigns (.inr hc)
  cases hwhole : wholePath? text with
  | some path =>
      obtain ⟨hpath, blanks, rfl, hblanks⟩ := wholePath?_eq_some_iff.mp hwhole
      have hread := assignment?_append hpath hblanks hvalue
      simpa [assignmentText] using hread
  | none =>
      by_contra hsome
      obtain ⟨⟨path, rest⟩, hread⟩ := Option.ne_none_iff_exists'.mp hsome
      obtain ⟨hpath, hrest, blanks, htext, hblanks⟩ := eq_assignmentText_of_assignment? hread
      -- no sign of a comparison stands in the path or in the blanks behind it
      have hsigns : ∀ c ∈ ['=', '~', '<', '>'], c ∉ dotted path ++ blanks := by
        intro c hc
        have htests : ∀ c ∈ ['=', '~', '<', '>'],
            isWord c = false ∧ c ≠ '.' ∧ isBlank c = false := by decide
        obtain ⟨hword, hdot, hblank⟩ := htests c hc
        rw [List.mem_append, not_or]
        exact ⟨not_mem_dotted hpath hword hdot, Text.not_mem_blanks hblanks hblank⟩
      have hsplit : (dotted path ++ blanks) ++ '=' :: rest = text ++ '=' :: value := by
        rw [htext, assignmentText]
        simp
      obtain ⟨more, htext, hmore⟩ :=
        Text.exists_of_append_eq_cons (hsigns '=' (by decide)) hsplit
      cases more with
      | nil =>
          rw [List.append_nil] at htext
          have hpathText := wholePath?_eq_some_iff.mpr ⟨hpath, blanks, htext, hblanks⟩
          rw [hwhole] at hpathText
          cases hpathText
      | cons c more =>
          -- the equals sign stands in the left side, where it is part of a comparison
          obtain ⟨rfl, hbehind⟩ := List.cons.inj hmore
          have hne : dotted path ++ blanks ≠ [] := by
            have hstart := hpath.startsWord blanks
            rintro hnil
            rw [hnil] at hstart
            cases hstart
          rcases h.first (front ++ (dotted path ++ blanks)) more (by rw [hl, htext]; simp) with
            hlast | hnext
          · rw [List.getLast?_append_of_ne_nil _ hne] at hlast
            obtain ⟨c, hc, hsign⟩ := hlast
            exact hsigns c hsign (List.mem_of_getLast? hc)
          · exact hrest '=' (by rw [hbehind]; exact hnext) rfl

/-- **The path that a line assigns to** is the longest one that its left side ends in. If there is
none it is searched for in the value. -/
theorem target?_leftSide (h : IsLeftSide left value) :
    target? (left ++ '=' :: value) = (endPath? left).or (target? value) := by
  have hsuffix (text : Text) : ∀ front, left = front ++ text →
      target? (text ++ '=' :: value) = (endPath? text).or (target? value) := by
    induction text with
    | nil =>
        intro front hl
        exact target?_cons_of_eq_none (assignment?_cons_eq_none (by decide) value)
    | cons c text ih =>
        intro front hl
        have hhere := assignment?_leftSide h hl
        have hrest := ih (front ++ [c]) (by rw [hl]; simp)
        rw [endPath?]
        cases hwhole : wholePath? (c :: text) with
        | some path =>
            rw [hwhole, Option.map_some] at hhere
            rw [target?_of_assignment? hhere]
            rfl
        | none =>
            rw [hwhole, Option.map_none, List.cons_append] at hhere
            rw [List.cons_append, target?_cons_of_eq_none hhere, hrest]
            rfl
  exact hsuffix left [] rfl

end LeftSide

end Declaration

end LuaReference
