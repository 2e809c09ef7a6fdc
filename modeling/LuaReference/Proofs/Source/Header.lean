import LuaReference.Proofs.Tag.Written
import LuaReference.Source.Declaration

set_option autoImplicit false

/-! # Written function headers

A function header is written as the word `function`, blanks, the owner with its separator, the
name, and the parameters in parentheses. The reader takes the longest path first and splits the
name off again, so a written header is read back with its owner whole (`header?_append`), and
the names in its parameter list are read back one by one (`paramNames_join`).
-/

namespace LuaReference

/-- A path that can be written: one word or more. -/
structure IsPath (path : List Text) : Prop where
  ne_nil : path ≠ []
  words : ∀ word ∈ path, Text.IsWord word

/-- The owner of a function as it stands in front of the name. -/
def ownerText : Option Owner → Text
  | none => []
  | some owner => dotted owner.path ++ [owner.separator.mark]

/-- What makes a header one that can be written. -/
structure FunctionHeader.IsWritten (header : FunctionHeader) : Prop where
  owner : ∀ owner ∈ header.owner, IsPath owner.path
  name : Text.IsWord header.name
  params : ∀ c ∈ header.params, c ≠ ')'

theorem dotted_cons {path : List Text} (h : path ≠ []) (word : Text) :
    dotted (word :: path) = word ++ '.' :: dotted path := by
  cases path with
  | nil => exact absurd rfl h
  | cons next path => simp [dotted, Text.join]

theorem dotted_concat {path : List Text} (h : path ≠ []) (word : Text) :
    dotted (path ++ [word]) = dotted path ++ '.' :: word := by
  induction path with
  | nil => exact absurd rfl h
  | cons first path ih =>
      by_cases hp : path = []
      · subst hp
        simp [dotted, Text.join]
      · rw [List.cons_append, dotted_cons (by simp), ih hp, dotted_cons hp, List.append_assoc,
          List.cons_append]

theorem IsPath.startsWord {path : List Text} (h : IsPath path) (rest : Text) :
    Text.startsWord (dotted path ++ rest) = true := by
  cases path with
  | nil => exact absurd rfl h.ne_nil
  | cons word path =>
      have hword := h.words word (by simp)
      by_cases hp : path = []
      · subst hp
        exact hword.startsWord rest
      · rw [dotted_cons hp, List.append_assoc]
        exact hword.startsWord _

namespace Declaration

/-! ## Paths -/

/-- The text behind a path does not continue it. -/
def EndsPath (rest : Text) : Prop := ∀ c ∈ rest.head?, isWord c = false ∧ c ≠ '.'

theorem spanPath_eq_nil {rest : Text} (h : EndsPath rest) : spanPath rest = ([], [], rest) := by
  cases rest with
  | nil => rfl
  | cons c rest =>
      obtain ⟨hw, hdot⟩ := h c rfl
      simp [spanPath, hw, hdot]

theorem spanPath_word {word : Text} (h : ∀ c ∈ word, isWord c = true) (rest : Text) :
    spanPath (word ++ rest) = (word ++ (spanPath rest).1, (spanPath rest).2) := by
  induction word with
  | nil => rfl
  | cons c word ih =>
      rw [List.cons_append, spanPath, if_pos (h c (by simp)),
        ih (fun d hd => h d (List.mem_cons_of_mem _ hd))]
      rfl

/-- A dot that a word follows goes on with the path. -/
theorem spanPath_dot {text : Text} (h : Text.startsWord text = true) :
    spanPath ('.' :: text) =
      ([], (spanPath text).1 :: (spanPath text).2.1, (spanPath text).2.2) := by
  rw [spanPath, if_neg (by decide), h]
  rfl

/-- A path is read back word by word. -/
theorem spanPath_dotted {path : List Text} {word rest : Text} (h : IsPath (word :: path))
    (hr : EndsPath rest) : spanPath (dotted (word :: path) ++ rest) = (word, path, rest) := by
  induction path generalizing word with
  | nil =>
      have hword := h.words word (by simp)
      rw [dotted, Text.join, spanPath_word hword.chars, spanPath_eq_nil hr, List.append_nil]
  | cons next path ih =>
      have hword := h.words word (by simp)
      have hpath : IsPath (next :: path) :=
        ⟨by simp, fun w hw => h.words w (List.mem_cons_of_mem _ hw)⟩
      rw [dotted_cons (by simp), List.append_assoc, spanPath_word hword.chars, List.cons_append,
        spanPath_dot (hpath.startsWord rest), ih hpath, List.append_nil]

/-- **A path is read back** in front of a text that does not continue it. -/
theorem path?_append {path : List Text} {rest : Text} (h : IsPath path) (hr : EndsPath rest) :
    path? (dotted path ++ rest) = some (path, rest) := by
  cases path with
  | nil => exact absurd rfl h.ne_nil
  | cons word path => rw [path?, if_pos (h.startsWord rest), spanPath_dotted h hr]

/-! ## Names with their owners -/

/-- The text behind the name of a function: neither a path nor a colon goes on there. -/
def EndsName (rest : Text) : Prop := ∀ c ∈ rest.head?, isWord c = false ∧ c ≠ '.' ∧ c ≠ ':'

theorem EndsName.endsPath {rest : Text} (h : EndsName rest) : EndsPath rest :=
  fun c hc => ⟨(h c hc).1, (h c hc).2.1⟩

/-- Without a colon behind the path, its last word is the name. -/
theorem ownedName?_of_path {path : List Text} {text rest : Text}
    (h : path? text = some (path, rest)) (hr : ∀ c ∈ rest.head?, c ≠ ':') :
    ownedName? text =
      some ((match path.dropLast with
        | [] => none
        | words => some ⟨words, .dot⟩, path.getLastD []), rest) := by
  simp only [ownedName?, h, Option.bind_eq_bind, Option.bind_some]
  split
  · -- a method needs the colon that is not there
    rename_i hmethod
    split at hmethod
    · exact absurd rfl (hr ':' rfl)
    · cases hmethod
  · rfl

/-- **A name is read back with its owner**, in front of a text that goes on with neither. -/
theorem ownedName?_append {owner : Option Owner} {name rest : Text}
    (ho : ∀ o ∈ owner, IsPath o.path) (hn : Text.IsWord name) (hr : EndsName rest) :
    ownedName? (ownerText owner ++ (name ++ rest)) = some ((owner, name), rest) := by
  have hcolon : ∀ c ∈ rest.head?, c ≠ ':' := fun c hc => (hr c hc).2.2
  match owner with
  | none =>
      -- the name alone is the path
      have hpath : IsPath [name] := ⟨by simp, by simpa using hn⟩
      have hread : path? (name ++ rest) = some ([name], rest) := path?_append hpath hr.endsPath
      exact ownedName?_of_path hread hcolon
  | some ⟨path, .dot⟩ =>
      -- the path is read with the name as its last word
      have hp : IsPath path := ho _ rfl
      have hpath : IsPath (path ++ [name]) := by
        refine ⟨by simp, fun word hw => ?_⟩
        rcases List.mem_append.mp hw with hw | hw
        · exact hp.words word hw
        · exact List.mem_singleton.mp hw ▸ hn
      have htext : ownerText (some ⟨path, .dot⟩) ++ (name ++ rest) =
          dotted (path ++ [name]) ++ rest := by
        simp [ownerText, dotted_concat hp.ne_nil, Separator.mark]
      rw [htext, ownedName?_of_path (path?_append hpath hr.endsPath) hcolon, List.dropLast_concat,
        List.getLastD_concat]
      cases path with
      | nil => exact absurd rfl hp.ne_nil
      | cons first path => rfl
  | some ⟨path, .colon⟩ =>
      -- the colon ends the path in front of the name
      have hp : IsPath path := ho _ rfl
      have hends : EndsPath (':' :: (name ++ rest)) := Text.head_cons (by decide) _
      have htext : ownerText (some ⟨path, .colon⟩) ++ (name ++ rest) =
          dotted path ++ ':' :: (name ++ rest) := by
        simp [ownerText, Separator.mark]
      have hword : Text.word? (name ++ rest) = some (name, rest) :=
        Text.word?_append hn fun c hc => (hr c hc).1
      simp only [htext, ownedName?, path?_append hp hends, Option.bind_eq_bind, Option.bind_some,
        hword]

/-! ## Parameter lists -/

/-- The names of a parameter list are read back, whatever blanks stand in front of the list. -/
theorem paramNames_blanks_append {blanks : Text} (hb : ∀ c ∈ blanks, isBlank c = true)
    {names : List Text} (h : ∀ name ∈ names, Tag.IsParamName name) :
    paramNames (blanks ++ Text.join ", ".toList names) = names := by
  have hcomma : ∀ c ∈ blanks, c ≠ ',' := fun c hc => ne_of_test (hb c hc) (by decide)
  induction names generalizing blanks with
  | nil =>
      have htrim : Text.trim blanks = [] := by
        rw [← List.append_nil blanks, Text.trim_append_left hb]
        rfl
      rw [Text.join, List.append_nil, paramNames, Text.splitAtEach_part hcomma, List.map_singleton,
        htrim]
      rfl
  | cons name rest ih =>
      have hname := h name (by simp)
      have hne : name ≠ [] := hname.endsInInk.ne_nil
      have htrim : Text.trim (blanks ++ name) = name := by
        rw [Text.trim_append_left hb]
        exact hname.endsInInk.trim_eq_self (by simpa using hname.head_not_blank [])
      have hpart : ∀ c ∈ blanks ++ name, c ≠ ',' := by
        intro c hc
        rcases List.mem_append.mp hc with hc | hc
        · exact hcomma c hc
        · exact hname.ne_mark (by decide) (by decide) c hc
      cases rest with
      | nil =>
          rw [Text.join, paramNames, Text.splitAtEach_part hpart, List.map_singleton, htrim]
          simp [hne]
      | cons next rest =>
          -- the blank of the separator stands in front of the next name
          have htext : blanks ++ Text.join ", ".toList (name :: next :: rest) =
              (blanks ++ name) ++ ',' :: ([' '] ++ Text.join ", ".toList (next :: rest)) := by
            simp [Text.join]
          have hrest : paramNames ([' '] ++ Text.join ", ".toList (next :: rest)) = next :: rest :=
            ih (by decide) (fun n hn => h n (List.mem_cons_of_mem _ hn)) (by decide)
          rw [paramNames] at hrest
          rw [htext, paramNames, Text.splitAtEach_append hpart, List.map_cons, htrim,
            List.filter_cons_of_pos (by simpa using hne), hrest]

/-- **The names of a written parameter list are read back.** -/
theorem paramNames_join {names : List Text} (h : ∀ name ∈ names, Tag.IsParamName name) :
    paramNames (Text.join ", ".toList names) = names :=
  paramNames_blanks_append (show ∀ c ∈ ([] : Text), isBlank c = true by simp) h

/-- No name closes the parameter list it stands in. -/
theorem join_ne_close {names : List Text} (h : ∀ name ∈ names, Tag.IsParamName name) :
    ∀ c ∈ Text.join ", ".toList names, c ≠ ')' := by
  induction names with
  | nil => simp [Text.join]
  | cons name rest ih =>
      have hname := (h name (by simp)).ne_mark (show isWord ')' = false by decide) (by decide)
      cases rest with
      | nil => exact hname
      | cons next rest =>
          intro c hc
          rw [Text.join, List.append_assoc, List.mem_append, List.mem_append] at hc
          · rcases hc with hc | hc | hc
            · exact hname c hc
            · revert c
              decide
            · exact ih (fun n hn => h n (List.mem_cons_of_mem _ hn)) c hc
          · simp

/-! ## Headers -/

/-- A parameter list is read back up to the parenthesis that closes it. -/
theorem params?_append {params : Text} (h : ∀ c ∈ params, c ≠ ')') (rest : Text) :
    params? ('(' :: (params ++ ')' :: rest)) = some (params, rest) := by
  have hinside : ∀ c ∈ params, (c != ')') = true := by simpa using h
  have hclose : ∀ c ∈ (')' :: rest : Text).head?, (c != ')') = false := by simp
  rw [params?, Text.dropWhile_append hinside hclose, Text.takeWhile_append hinside hclose]

/-- A header with the blanks behind its keyword and in front of its parameters. -/
def headerText (header : FunctionHeader) (before after : Text) : Text :=
  "function".toList ++ (before ++ (ownerText header.owner ++ (header.name ++
    (after ++ '(' :: (header.params ++ [')'])))))

/-- The header up to the parenthesis that closes its parameters. -/
def headerFront (header : FunctionHeader) (before after : Text) : Text :=
  "function".toList ++ (before ++ (ownerText header.owner ++ (header.name ++
    (after ++ '(' :: header.params))))

theorem headerText_append (header : FunctionHeader) (before after rest : Text) :
    headerText header before after ++ rest = headerFront header before after ++ ')' :: rest := by
  unfold headerText headerFront
  simp only [List.append_assoc, List.cons_append, List.nil_append]

theorem ownerText_head {owner : Option Owner} {name : Text} (ho : ∀ o ∈ owner, IsPath o.path)
    (hn : Text.IsWord name) (rest : Text) :
    ∀ c ∈ (ownerText owner ++ (name ++ rest)).head?, isBlank c = false := by
  have hword : ∃ word rest', ownerText owner ++ (name ++ rest) = word ++ rest' ∧
      Text.IsWord word := by
    match owner with
    | none => exact ⟨name, rest, rfl, hn⟩
    | some ⟨[], _⟩ => exact absurd rfl (ho _ rfl).ne_nil
    | some ⟨[word], mark⟩ =>
        refine ⟨word, mark.mark :: (name ++ rest), ?_, (ho _ rfl).words word (by simp)⟩
        simp [ownerText, dotted, Text.join]
    | some ⟨word :: next :: path, mark⟩ =>
        refine ⟨word, '.' :: (dotted (next :: path) ++ mark.mark :: (name ++ rest)), ?_,
          (ho _ rfl).words word (by simp)⟩
        simp [ownerText, dotted_cons]
  obtain ⟨word, rest', heq, hw⟩ := hword
  rw [heq]
  exact hw.head_not_blank rest'

/-- **A written header is read back**, whatever blanks it is written with and whatever stands
behind it. -/
theorem header?_append {header : FunctionHeader} (h : header.IsWritten) {before after : Text}
    (hb : ∀ c ∈ before, isBlank c = true) (hne : before ≠ [])
    (ha : ∀ c ∈ after, isBlank c = true) (suffix : Text) :
    header? (headerText header before after ++ suffix) = some (header, suffix) := by
  have hends : EndsName (after ++ '(' :: (header.params ++ ')' :: suffix)) := by
    refine Text.head_run_append (fun c hc => ?_) (Text.head_cons (by decide) _)
    have hblank := ha c hc
    exact ⟨isWord_eq_false_of_isBlank hblank, ne_of_test hblank (by decide),
      ne_of_test hblank (by decide)⟩
  have htext : headerText header before after ++ suffix =
      "function".toList ++ (before ++ (ownerText header.owner ++ (header.name ++
        (after ++ '(' :: (header.params ++ ')' :: suffix))))) := by
    unfold headerText
    simp only [List.append_assoc, List.cons_append, List.nil_append]
  have hbody : Tag.afterKeyword? "function".toList (headerText header before after ++ suffix) =
      some (ownerText header.owner ++ (header.name ++
        (after ++ '(' :: (header.params ++ ')' :: suffix)))) := by
    rw [htext, Tag.afterKeyword?, Text.isPrefixOf?_append, Option.bind_some]
    exact Text.afterBlanks?_append hb hne (ownerText_head h.owner h.name _)
  simp only [header?, hbody, Option.bind_eq_bind, Option.bind_some,
    ownedName?_append h.owner h.name hends, Text.skipBlanks_append ha,
    Text.skipBlanks_cons (c := '(') (by decide), params?_append h.params]

theorem headerOf?_append {header : FunctionHeader} (h : header.IsWritten) {before after : Text}
    (hb : ∀ c ∈ before, isBlank c = true) (hne : before ≠ [])
    (ha : ∀ c ∈ after, isBlank c = true) (suffix : Text) :
    headerOf? (headerText header before after ++ suffix) = some header := by
  rw [headerOf?, Text.search_of_eq_some (header?_append h hb hne ha suffix), Option.map_some]

/-! ## Headers as lines -/

theorem ownerText_oneLine {owner : Option Owner} (ho : ∀ o ∈ owner, IsPath o.path) :
    Text.OneLine (ownerText owner) := by
  match owner with
  | none => exact fun c hc => absurd hc List.not_mem_nil
  | some ⟨path, mark⟩ =>
      have hpath : Text.OneLine (dotted path) :=
        Text.OneLine.join (by decide) fun word hw => ((ho _ rfl).words word hw).oneLine
      have hmark : Text.OneLine [mark.mark] := by cases mark <;> decide
      exact hpath.append hmark

theorem headerText_oneLine {header : FunctionHeader} (h : header.IsWritten)
    (hp : Text.OneLine header.params) : Text.OneLine (headerText header [' '] []) := by
  have hkey : Text.OneLine "function ".toList := by decide
  have hparams : Text.OneLine ('(' :: (header.params ++ [')'])) :=
    .cons (by decide) (hp.append (by decide))
  have hname : Text.OneLine (header.name ++ '(' :: (header.params ++ [')'])) :=
    h.name.oneLine.append hparams
  exact hkey.append ((ownerText_oneLine h.owner).append hname)

/-- A header begins and ends in no blank. -/
theorem trim_headerText (header : FunctionHeader) (before after : Text) :
    Text.trim (headerText header before after) = headerText header before after := by
  have hsplit := headerText_append header before after []
  rw [List.append_nil] at hsplit
  have hink : Text.EndsInInk (headerText header before after) := by
    rw [hsplit]
    exact Text.EndsInInk.append ⟨by decide, by decide⟩ _
  exact hink.trim_eq_self (Text.head_cons (by decide) _)

end Declaration

end LuaReference
