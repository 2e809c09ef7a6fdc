import LuaReference.Proofs.Source.PathReading

set_option autoImplicit false

/-! # Readings that end in a mark

The header of a function ends in the parenthesis that closes its parameters, and the left side of
an assignment in the equals sign. Such a reading takes a text up to the first mark of its sort and
no further (`ReadsTo`). So a text that is put behind a line takes nothing away from what is found on
the line (`search_append`), and it adds something only if it holds the mark
(`search_append_eq_none`).

That a reading ends in its mark is seen by writing down again what was read: what is written is
read back in front of any other rest (`readsTo_assignment?`, `readsTo_header?`).
-/

namespace LuaReference

/-! ## The search for a marked reading -/

/-- A recogniser that reads a text up to the first `mark`: it does so in front of every rest whose
first character `follows` the mark. -/
structure ReadsTo {α : Type} (recognise : Recogniser α) (mark : Char) (follows : Char → Prop) :
    Prop where
  read : ∀ {text rest : Text} {value : α}, recognise text = some (value, rest) →
    (∀ c ∈ rest.head?, follows c) ∧
      ∃ front, text = front ++ mark :: rest ∧ mark ∉ front ∧
        ∀ rest', (∀ c ∈ rest'.head?, follows c) →
          recognise (front ++ mark :: rest') = some (value, rest')

section ReadsTo

variable {α : Type} {recognise : Recogniser α} {mark : Char} {follows : Char → Prop}
  {text tail rest : Text} {value : α}

theorem ReadsTo.mem (h : ReadsTo recognise mark follows)
    (hr : recognise text = some (value, rest)) : mark ∈ text := by
  obtain ⟨-, front, rfl, -, -⟩ := h.read hr
  simp

/-- What is read of a text is read as well if the text goes on. -/
theorem ReadsTo.append (h : ReadsTo recognise mark follows) (ht : ∀ c ∈ tail.head?, follows c)
    (hr : recognise text = some (value, rest)) :
    recognise (text ++ tail) = some (value, rest ++ tail) := by
  obtain ⟨hrest, front, rfl, -, hread⟩ := h.read hr
  rw [List.append_assoc, List.cons_append]
  refine hread (rest ++ tail) ?_
  cases rest with
  | nil => exact ht
  | cons c rest => exact hrest

/-- If a text holds the mark, what is read of it with a text behind it is read of it alone. -/
theorem ReadsTo.of_append (h : ReadsTo recognise mark follows) (hm : mark ∈ text)
    (hr : recognise (text ++ tail) = some (value, rest)) :
    ∃ rest', recognise text = some (value, rest') := by
  obtain ⟨hrest, front, htext, hfront, hread⟩ := h.read hr
  rcases List.append_eq_append_iff.mp htext with ⟨more, rfl, -⟩ | ⟨behind, rfl, hbehind⟩
  · -- then the mark would stand in front of the first one
    exact absurd (List.mem_append_left more hm) hfront
  · cases behind with
    | nil =>
        rw [List.append_nil] at hm
        exact absurd hm hfront
    | cons c behind =>
        obtain ⟨rfl, rfl⟩ := List.cons.inj hbehind
        refine ⟨behind, hread behind fun d hd => hrest d ?_⟩
        cases behind with
        | nil => cases hd
        | cons e behind => exact hd

/-- What is found in a text holds the mark, so nothing is found in a text without it. -/
theorem ReadsTo.mem_of_search (h : ReadsTo recognise mark follows) {found : Found α}
    (hs : search recognise text = some found) : mark ∈ text := by
  obtain ⟨behind, hbehind, hread⟩ := exists_of_search hs
  exact hbehind.subset (h.mem hread)

theorem search_eq_none (h : ReadsTo recognise mark follows) (hm : mark ∉ text) :
    search recognise text = none := by
  by_contra hsome
  obtain ⟨found, hfound⟩ := Option.ne_none_iff_exists'.mp hsome
  exact hm (h.mem_of_search hfound)

/-- Where nothing is read, nothing is read if the text goes on, unless it goes on to a first mark. -/
theorem ReadsTo.append_eq_none (h : ReadsTo recognise mark follows)
    (hm : mark ∈ text ∨ mark ∉ tail) (hn : recognise text = none) :
    recognise (text ++ tail) = none := by
  by_contra hsome
  obtain ⟨⟨value, rest⟩, hread⟩ := Option.ne_none_iff_exists'.mp hsome
  have hfirst : mark ∈ text :=
    hm.elim id fun htail => (List.mem_append.mp (h.mem hread)).resolve_right htail
  obtain ⟨rest', hread'⟩ := h.of_append hfirst hread
  rw [hn] at hread'
  cases hread'

/-- **What is found in a text is found as well if the text goes on.** -/
theorem search_append (h : ReadsTo recognise mark follows) (ht : ∀ c ∈ tail.head?, follows c)
    {found : Found α} (hs : search recognise text = some found) :
    search recognise (text ++ tail) = some { found with rest := found.rest ++ tail } := by
  induction text generalizing found with
  | nil =>
      obtain ⟨⟨value, rest⟩, hread, -⟩ := Option.map_eq_some_iff.mp hs
      exact absurd (h.mem hread) List.not_mem_nil
  | cons c text ih =>
      rw [search] at hs
      split at hs
      · rename_i value rest hread
        obtain rfl := Option.some.inj hs
        have hlonger := h.append ht hread
        rw [List.cons_append] at hlonger ⊢
        rw [search, hlonger]
      · rename_i hnone
        obtain ⟨later, hlater, rfl⟩ := Option.map_eq_some_iff.mp hs
        -- the mark further down keeps the longer text from being read here
        have hmark : mark ∈ c :: text := List.mem_cons_of_mem c (h.mem_of_search hlater)
        have hlonger : recognise (c :: (text ++ tail)) = none :=
          h.append_eq_none (.inl hmark) hnone
        rw [List.cons_append, search, hlonger, ih hlater]
        rfl

/-- **A text without the mark adds nothing** to a text in which nothing is found. -/
theorem search_append_eq_none (h : ReadsTo recognise mark follows) (hm : mark ∉ tail)
    (hs : search recognise text = none) : search recognise (text ++ tail) = none := by
  induction text with
  | nil => exact search_eq_none h hm
  | cons c text ih =>
      rw [search] at hs
      split at hs
      · cases hs
      · rename_i hnone
        have hlonger : recognise (c :: (text ++ tail)) = none := h.append_eq_none (.inr hm) hnone
        rw [List.cons_append, search, hlonger, ih (Option.map_eq_none_iff.mp hs)]
        rfl

end ReadsTo

namespace Declaration

/-! ## Readings with a mark -/

/-- A path is made of word characters and dots. -/
theorem not_mem_dotted {path : List Text} (h : IsPath path) {c : Char} (hc : isWord c = false)
    (hdot : c ≠ '.') : c ∉ dotted path := by
  have hword : ∀ word ∈ path, c ∉ word := fun word hw => (h.words word hw).not_mem hc
  cases path with
  | nil => exact absurd rfl h.ne_nil
  | cons word more =>
      rw [dotted_eq, List.mem_append, List.mem_flatMap]
      rintro (hmem | ⟨next, hnext, hmem⟩)
      · exact hword word (by simp) hmem
      · exact hword next (List.mem_cons_of_mem _ hnext) ((List.mem_cons.mp hmem).resolve_left hdot)

theorem assignment?_append {path : List Text} (h : IsPath path) {blanks : Text}
    (hb : ∀ c ∈ blanks, isBlank c = true) {rest : Text} (hr : ∀ c ∈ rest.head?, c ≠ '=') :
    assignment? (assignmentText path blanks ++ rest) = some (path, rest) := by
  have htext : assignmentText path blanks ++ rest = dotted path ++ (blanks ++ '=' :: rest) := by
    simp [assignmentText]
  have hends : EndsPath (blanks ++ '=' :: rest) :=
    Text.head_run_append (fun c hc => ⟨isWord_eq_false_of_isBlank (hb c hc),
      ne_of_test (hb c hc) (by decide)⟩) (Text.head_cons (by decide) _)
  have hnext : rest.head? ≠ some '=' := fun hc => hr '=' hc rfl
  simp only [htext, assignment?, path?_append h hends, Option.bind_eq_bind, Option.bind_some,
    Text.skipBlanks_append hb, Text.skipBlanks_cons (show isBlank '=' = false by decide),
    if_neg hnext]

theorem readsTo_assignment? : ReadsTo assignment? '=' (· ≠ '=') := by
  refine ⟨fun {text rest path} h => ?_⟩
  obtain ⟨hpath, hrest, blanks, rfl, hblanks⟩ := eq_assignmentText_of_assignment? h
  refine ⟨hrest, dotted path ++ blanks, by simp [assignmentText], ?_, fun rest' hrest' => ?_⟩
  · rw [List.mem_append, not_or]
    exact ⟨not_mem_dotted hpath (by decide) (by decide), Text.not_mem_blanks hblanks (by decide)⟩
  · have hread := assignment?_append hpath hblanks hrest'
    simpa [assignmentText] using hread

theorem not_mem_ownerText {owner : Option Owner} (h : ∀ o ∈ owner, IsPath o.path) {c : Char}
    (hc : isWord c = false) (hdot : c ≠ '.') (hcolon : c ≠ ':') : c ∉ ownerText owner := by
  match owner with
  | none => exact List.not_mem_nil
  | some ⟨path, separator⟩ =>
      have hpath : c ∉ dotted path := not_mem_dotted (h _ rfl) hc hdot
      have hmark : c ≠ separator.mark := by
        cases separator with
        | dot => exact hdot
        | colon => exact hcolon
      simpa [ownerText, hmark] using hpath

theorem readsTo_header? : ReadsTo header? ')' fun _ => True := by
  refine ⟨fun {text rest header} h => ?_⟩
  obtain ⟨hwritten, before, after, rfl, hbefore, hne, hafter⟩ := eq_headerText_of_header? h
  refine ⟨fun _ _ => trivial, headerFront header before after,
    headerText_append header before after rest, ?_, fun rest' _ => ?_⟩
  · have hblank {blanks : Text} (hb : ∀ c ∈ blanks, isBlank c = true) : ')' ∉ blanks :=
      Text.not_mem_blanks hb (by decide)
    have hname : ')' ∉ header.name := hwritten.name.not_mem (by decide)
    have hparams : ')' ∉ header.params := fun hc => hwritten.params ')' hc rfl
    unfold headerFront
    simp only [List.mem_append, List.mem_cons, not_or]
    exact ⟨by decide, hblank hbefore,
      not_mem_ownerText hwritten.owner (by decide) (by decide) (by decide), hname, hblank hafter,
      by decide, hparams⟩
  · rw [← headerText_append]
    exact header?_append hwritten hbefore hne hafter rest'

end Declaration

end LuaReference
