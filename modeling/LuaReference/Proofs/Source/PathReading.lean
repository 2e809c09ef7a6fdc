import LuaReference.Proofs.Source.Header

set_option autoImplicit false

/-! # What is read, written down again

What is read at the start of a text can be written down again: the text in front of the rest is a
written assignment (`eq_assignmentText_of_assignment?`) or a written function header
(`eq_headerText_of_header?`). So a line declares or assigns to paths that can be written, one word or
more, none of which holds a dot (`isPath_of_target?`, `isPath_of_headerOf?`), and such a path is
known from its dotted name, whose part in front of the first dot is the first word of the path.
-/

namespace LuaReference

/-- What a search finds was read somewhere in the text. -/
theorem exists_of_search {α : Type} {recognise : Recogniser α} {text : Text} {found : Found α}
    (h : search recognise text = some found) :
    ∃ behind, behind <:+ text ∧ recognise behind = some (found.value, found.rest) := by
  induction text generalizing found with
  | nil =>
      obtain ⟨⟨value, rest⟩, hread, rfl⟩ := Option.map_eq_some_iff.mp h
      exact ⟨[], List.suffix_refl _, hread⟩
  | cons c text ih =>
      rw [search] at h
      split at h
      · rename_i value rest hread
        obtain rfl := Option.some.inj h
        exact ⟨c :: text, List.suffix_refl _, hread⟩
      · obtain ⟨later, hlater, rfl⟩ := Option.map_eq_some_iff.mp h
        obtain ⟨behind, hbehind, hread⟩ := ih hlater
        exact ⟨behind, hbehind.trans (List.suffix_cons c text), hread⟩

/-- Where something is read, a search from a place in front of it finds something. -/
theorem isSome_search_append {α : Type} {recognise : Recogniser α} {behind : Text}
    (h : (recognise behind).isSome = true) (front : Text) :
    (search recognise (front ++ behind)).isSome = true := by
  induction front with
  | nil =>
      obtain ⟨⟨value, rest⟩, hread⟩ := Option.isSome_iff_exists.mp h
      rw [List.nil_append, Text.search_of_eq_some hread]
      rfl
  | cons c front ih =>
      rw [List.cons_append, search]
      split
      · rfl
      · rwa [Option.isSome_map]

theorem Text.eq_append_of_word? {text word rest : Text} (h : Text.word? text = some (word, rest)) :
    text = word ++ rest ∧ Text.IsWord word := by
  rw [Text.word?] at h
  split at h
  · rename_i hstart
    obtain ⟨rfl, rfl⟩ := Prod.mk.inj (Option.some.inj h)
    refine ⟨List.takeWhile_append_dropWhile.symm, ?_, fun c hc => List.mem_takeWhile_imp hc⟩
    cases text with
    | nil => cases hstart
    | cons c text =>
        have hc : isWord c = true := hstart
        simp [hc]
  · cases h

theorem Tag.eq_append_of_afterKeyword? {keyword text body : Text}
    (h : Tag.afterKeyword? keyword text = some body) :
    ∃ blanks : Text, text = keyword ++ (blanks ++ body) ∧ blanks ≠ [] ∧
      ∀ c ∈ blanks, isBlank c = true := by
  obtain ⟨behind, hbehind, hblanks⟩ := Option.bind_eq_some_iff.mp h
  obtain rfl := List.isPrefixOf?_eq_some_iff_append_eq.mp hbehind
  obtain ⟨blanks, rfl, hne, hall⟩ := Text.eq_append_of_afterBlanks? hblanks
  exact ⟨blanks, rfl, hne, hall⟩

/-- A keyword is read where it stands with a blank behind it. -/
theorem Tag.isSome_afterKeyword? (keyword text : Text) :
    (Tag.afterKeyword? keyword text).isSome = true ↔
      ∃ blank more, isBlank blank = true ∧ text = keyword ++ blank :: more := by
  rw [Tag.afterKeyword?]
  cases hprefix : keyword.isPrefixOf? text with
  | none =>
      refine iff_of_false Bool.false_ne_true ?_
      rintro ⟨blank, more, -, rfl⟩
      rw [Text.isPrefixOf?_append] at hprefix
      cases hprefix
  | some behind =>
      obtain rfl := List.isPrefixOf?_eq_some_iff_append_eq.mp hprefix
      rw [Option.bind_some, Text.isSome_afterBlanks?]
      simp only [List.append_cancel_left_eq]

/-- Only a line that begins with the word `local` declares something local. -/
theorem Declaration.isLocal_eq_false {line : Text} (h : "local".toList.isPrefixOf line = false) :
    Declaration.isLocal line = false := by
  rw [Bool.eq_false_iff]
  intro hlocal
  obtain ⟨blank, more, -, rfl⟩ := (Tag.isSome_afterKeyword? _ _).mp hlocal
  rw [List.isPrefixOf_iff_prefix.mpr (List.prefix_append _ _)] at h
  cases h

theorem Declaration.isLocal_cons {c : Char} (h : c ≠ 'l') (rest : Text) :
    Declaration.isLocal (c :: rest) = false :=
  Declaration.isLocal_eq_false (Text.isPrefixOf_cons_eq_false h _ rest)

/-! ## Paths -/

theorem dotted_eq (word : Text) (more : List Text) :
    dotted (word :: more) = word ++ more.flatMap ('.' :: ·) := by
  induction more generalizing word with
  | nil => simp [dotted, Text.join]
  | cons next more ih => rw [dotted_cons (by simp), ih, List.flatMap_cons, List.cons_append]

namespace Declaration

/-- Reading on in a path splits the text into the rest of the word that has begun, whole words
behind dots, and the text behind the path. -/
theorem spanPath_split (text : Text) :
    text = (spanPath text).1 ++
        ((spanPath text).2.1.flatMap ('.' :: ·) ++ (spanPath text).2.2) ∧
      (∀ c ∈ (spanPath text).1, isWord c = true) ∧
      (∀ word ∈ (spanPath text).2.1, Text.IsWord word) ∧
      (Text.startsWord text = true → (spanPath text).1 ≠ []) := by
  induction text with
  | nil => exact ⟨rfl, by simp [spanPath], by simp [spanPath], by simp [Text.startsWord]⟩
  | cons c rest ih =>
      obtain ⟨hsplit, hword, hmore, hstart⟩ := ih
      by_cases hc : isWord c = true
      · -- the character goes on with the word
        rw [spanPath, if_pos hc]
        exact ⟨congrArg (c :: ·) hsplit, List.forall_mem_cons.mpr ⟨hc, hword⟩, hmore, by simp⟩
      · have hnone : Text.startsWord (c :: rest) ≠ true := by simpa [Text.startsWord] using hc
        by_cases hdot : c = '.' ∧ Text.startsWord rest = true
        · -- a dot ends the word, and the next one begins behind it
          obtain ⟨rfl, hnext⟩ := hdot
          rw [spanPath_dot hnext]
          refine ⟨?_, by simp, List.forall_mem_cons.mpr ⟨⟨hstart hnext, hword⟩, hmore⟩, ?_⟩
          · simp only [List.nil_append, List.flatMap_cons, List.cons_append, List.append_assoc]
            exact congrArg ('.' :: ·) hsplit
          · exact fun h => absurd h hnone
        · have hend : (decide (c = '.') && Text.startsWord rest) ≠ true := by simpa using hdot
          rw [spanPath, if_neg hc, if_neg hend]
          exact ⟨rfl, by simp, by simp, fun h => absurd h hnone⟩

theorem eq_dotted_of_path? {text rest : Text} {path : List Text}
    (h : path? text = some (path, rest)) : text = dotted path ++ rest ∧ IsPath path := by
  rw [path?] at h
  split at h
  · rename_i hstart
    obtain ⟨hsplit, hword, hmore, hne⟩ := spanPath_split text
    obtain ⟨rfl, rfl⟩ := Prod.mk.inj (Option.some.inj h)
    refine ⟨?_, by simp, List.forall_mem_cons.mpr ⟨⟨hne hstart, hword⟩, hmore⟩⟩
    rw [dotted_eq, List.append_assoc]
    exact hsplit
  · cases h

/-! ## Assignments -/

/-- The left side of an assignment with the blanks in front of the equals sign. -/
def assignmentText (path : List Text) (blanks : Text) : Text := dotted path ++ (blanks ++ ['='])

theorem eq_assignmentText_of_assignment? {text rest : Text} {path : List Text}
    (h : assignment? text = some (path, rest)) :
    IsPath path ∧ (∀ c ∈ rest.head?, c ≠ '=') ∧
      ∃ blanks, text = assignmentText path blanks ++ rest ∧ ∀ c ∈ blanks, isBlank c = true := by
  rw [assignment?] at h
  obtain ⟨⟨words, behind⟩, hpath, h⟩ := Option.bind_eq_some_iff.mp h
  obtain ⟨htext, hwords⟩ := eq_dotted_of_path? hpath
  obtain ⟨blanks, hbehind, hblanks⟩ := Text.eq_blanks_append_skipBlanks behind
  simp only at h
  split at h
  · rename_i after hafter
    split at h
    · cases h
    · rename_i hnext
      obtain ⟨rfl, rfl⟩ := Prod.mk.inj (Option.some.inj h)
      refine ⟨hwords, fun c hc => ?_, blanks, ?_, hblanks⟩
      · rintro rfl
        exact hnext hc
      · rw [htext, hbehind, hafter]
        simp [assignmentText]
  · cases h

/-- A line assigns to a path. -/
theorem isPath_of_target? {line : Text} {path : List Text} (h : target? line = some path) :
    IsPath path := by
  obtain ⟨found, hfound, rfl⟩ := Option.map_eq_some_iff.mp h
  obtain ⟨behind, -, hread⟩ := exists_of_search hfound
  exact (eq_assignmentText_of_assignment? hread).1

/-! ## Function headers -/

/-- What is read as a name with its owner is the written owner and a written name. -/
theorem eq_append_of_ownedName? {text rest name : Text} {owner : Option Owner}
    (h : ownedName? text = some ((owner, name), rest)) :
    text = ownerText owner ++ (name ++ rest) ∧ (∀ o ∈ owner, IsPath o.path) ∧
      Text.IsWord name := by
  rw [ownedName?] at h
  obtain ⟨⟨path, behind⟩, hpath, h⟩ := Option.bind_eq_some_iff.mp h
  obtain ⟨htext, hwords⟩ := eq_dotted_of_path? hpath
  simp only at h
  split at h
  · -- with a colon all of the path is the owner
    rename_i method behindName hmethod
    obtain ⟨hpair, rfl⟩ := Prod.mk.inj (Option.some.inj h)
    obtain ⟨rfl, rfl⟩ := Prod.mk.inj hpair
    split at hmethod
    · obtain ⟨hbehind, hname⟩ := Text.eq_append_of_word? hmethod
      refine ⟨?_, by simpa using hwords, hname⟩
      rw [htext, hbehind]
      simp [ownerText, Separator.mark]
    · cases hmethod
  · -- else the last word of the path is the name
    obtain ⟨hpair, rfl⟩ := Prod.mk.inj (Option.some.inj h)
    obtain ⟨hfront, rfl⟩ := Prod.mk.inj hpair
    obtain ⟨words, last, rfl⟩ := (List.eq_nil_or_concat path).resolve_left hwords.ne_nil
    rw [List.concat_eq_append] at hfront hwords htext ⊢
    rw [List.dropLast_concat] at hfront
    rw [List.getLastD_concat]
    have hlast : Text.IsWord last := hwords.words last (by simp)
    cases words with
    | nil =>
        obtain rfl : none = owner := hfront
        exact ⟨htext, by simp, hlast⟩
    | cons first words =>
        obtain rfl : some ⟨first :: words, .dot⟩ = owner := hfront
        have howner : IsPath (first :: words) :=
          ⟨by simp, fun word hw => hwords.words word (List.mem_append_left _ hw)⟩
        refine ⟨?_, by simpa using howner, hlast⟩
        rw [htext, dotted_concat (by simp)]
        simp [ownerText, Separator.mark]

theorem eq_append_of_params? {text rest params : Text} (h : params? text = some (params, rest)) :
    text = '(' :: (params ++ ')' :: rest) ∧ ∀ c ∈ params, c ≠ ')' := by
  rw [params?.eq_def] at h
  split at h
  · rename_i inside
    split at h
    · rename_i c behind hbehind
      obtain ⟨rfl, rfl⟩ := Prod.mk.inj (Option.some.inj h)
      obtain rfl : c = ')' := by
        have hnot := List.head_dropWhile_not (· != ')') (l := inside) (by simp [hbehind])
        simpa [hbehind] using hnot
      refine ⟨?_, fun d hd => by simpa using List.mem_takeWhile_imp hd⟩
      rw [← hbehind, List.takeWhile_append_dropWhile]
    · cases h
  · cases h

/-- **What is read as a header is a written header**: all of the text up to the rest is taken, and
each part of it is what it was read as. -/
theorem eq_headerText_of_header? {text rest : Text} {header : FunctionHeader}
    (h : header? text = some (header, rest)) :
    header.IsWritten ∧ ∃ before after, text = headerText header before after ++ rest ∧
      (∀ c ∈ before, isBlank c = true) ∧ before ≠ [] ∧ ∀ c ∈ after, isBlank c = true := by
  rw [header?] at h
  obtain ⟨body, hbody, h⟩ := Option.bind_eq_some_iff.mp h
  obtain ⟨⟨⟨owner, name⟩, behind⟩, hnamed, h⟩ := Option.bind_eq_some_iff.mp h
  obtain ⟨⟨params, behindParams⟩, hparams, h⟩ := Option.bind_eq_some_iff.mp h
  obtain ⟨rfl, rfl⟩ := Prod.mk.inj (Option.some.inj h)
  obtain ⟨before, htext, hne, hbefore⟩ := Tag.eq_append_of_afterKeyword? hbody
  obtain ⟨hname, howner, hword⟩ := eq_append_of_ownedName? hnamed
  obtain ⟨after, hafter, hblanks⟩ := Text.eq_blanks_append_skipBlanks behind
  obtain ⟨hlist, hinside⟩ := eq_append_of_params? hparams
  refine ⟨⟨howner, hword, hinside⟩, before, after, ?_, hbefore, hne, hblanks⟩
  rw [htext, hname, hafter, hlist]
  unfold headerText
  simp only [List.append_assoc, List.cons_append, List.nil_append]

/-- The owner of a function header on a line is a path. -/
theorem isPath_of_headerOf? {line : Text} {header : FunctionHeader} {owner : Owner}
    (h : headerOf? line = some header) (ho : header.owner = some owner) : IsPath owner.path := by
  obtain ⟨found, hfound, rfl⟩ := Option.map_eq_some_iff.mp h
  obtain ⟨behind, -, hread⟩ := exists_of_search hfound
  exact (eq_headerText_of_header? hread).1.owner owner ho

end Declaration

/-! ## Dotted names -/

/-- The part of a name in front of its first dot. -/
def firstWord (name : Text) : Text := name.takeWhile (· != '.')

/-- A word holds word characters only. -/
theorem Text.IsWord.not_mem {word : Text} (h : Text.IsWord word) {c : Char}
    (hc : isWord c = false) : c ∉ word := by
  intro hmem
  rw [h.chars c hmem] at hc
  cases hc

/-- A word holds no dot. -/
theorem Text.IsWord.not_mem_dot {word : Text} (h : Text.IsWord word) : '.' ∉ word :=
  h.not_mem (by decide)

/-- A path is split off its dotted name at the dots. -/
theorem splitAtEach_dotted {path : List Text} (h : IsPath path) :
    Text.splitAtEach '.' (dotted path) = path := by
  induction path with
  | nil => exact absurd rfl h.ne_nil
  | cons word more ih =>
      have hword : ∀ c ∈ word, c ≠ '.' := by
        rintro c hc rfl
        exact (h.words word (by simp)).not_mem_dot hc
      by_cases hmore : more = []
      · subst hmore
        exact Text.splitAtEach_part hword
      · have hpath : IsPath more := ⟨hmore, fun part hp => h.words part (List.mem_cons_of_mem _ hp)⟩
        rw [dotted_cons hmore, Text.splitAtEach_append hword, ih hpath]

theorem firstWord_of_not_mem {name : Text} (h : '.' ∉ name) : firstWord name = name :=
  List.takeWhile_eq_self_iff.mpr fun c hc => by
    rw [bne_iff_ne]
    rintro rfl
    exact h hc

/-- The first word of a dotted path is the first word of the path. -/
theorem firstWord_dotted {path : List Text} (h : IsPath path) :
    firstWord (dotted path) = path.headD [] := by
  cases path with
  | nil => exact absurd rfl h.ne_nil
  | cons word more =>
      have hword : ∀ c ∈ word, (c != '.') = true := by
        intro c hc
        rw [bne_iff_ne]
        rintro rfl
        exact (h.words word (by simp)).not_mem_dot hc
      have hends : ∀ c ∈ (more.flatMap ('.' :: ·)).head?, (c != '.') = false := by
        cases more <;> simp
      rw [dotted_eq, firstWord, Text.takeWhile_append hword hends]
      rfl

end LuaReference
