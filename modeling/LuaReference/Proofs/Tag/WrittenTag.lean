import LuaReference.Proofs.Drafts.Rule
import LuaReference.Proofs.Tag.TypeReading
import LuaReference.Proofs.Tag.Written

set_option autoImplicit false

/-! # Written tags

Every tag with groups has a line on which it is written: its keyword, then its groups with one
blank in front of each. The main statement, `read?_line`, is that such a line is read back as the
tag it was written for, whatever names, types and descriptions stand in it, and that nothing of the
line is left. What a tag of classes, enums and fields says of an absent description is an empty
text; in all other tags an absent group stays absent.

Three readings of a line have to be told apart. A visibility is itself a word and may be the name
of a field, a colon may begin a parent or a description, and a colon behind a function type begins
its result. So a field without a visibility must not be named like one, and a description that
stands behind a type or a name must not begin with a colon.
-/

namespace LuaReference.Tag

/-! ## The lines -/

/-- A text as a part of a line that is absent when it is empty. -/
def present : Text → Option Text
  | [] => none
  | c :: text => some (c :: text)

/-- The visibility in front of the name of a field. -/
def qualifying : Option Text → Text
  | none => []
  | some visibility => visibility ++ [' ']

/-- The line of a field. -/
def fieldLine (visibility : Option Text) (name type : Text) (description : Option Text) : Text :=
  "---@field".toList ++
    ' ' :: (qualifying visibility ++ (name ++ ' ' :: (type ++ spaced description)))

/-- The keyword of classes or enums. -/
def declarationKeyword : Bool → Text
  | false => "---@class".toList
  | true => "---@enum".toList

/-- The part of a line that names what a class extends. -/
def extending : Option Text → Text
  | none => []
  | some parent => " : ".toList ++ parent

/-- The line of a class or an enum. -/
def declarationLine (isEnum : Bool) (name : Text) (parent description : Option Text) : Text :=
  declarationKeyword isEnum ++ ' ' :: (name ++ (extending parent ++ spaced description))

/-- The line of a tag. The two tags without groups say no more than their keyword. -/
def line : Tag → Text
  | .declaration isEnum name parent text => declarationLine isEnum name parent (present text)
  | .field visibility name expr text => fieldLine visibility name expr (present text)
  | .type expr description => typeLine expr description
  | .param name expr description => paramLine name expr description
  | .result expr name description => resultLine expr name description
  | .nonStatic => "---@non-static".toList
  | .other => "---@other".toList

/-- What may be described behind a name or a type. -/
def IsDescribing (description : Option Text) : Prop :=
  ∀ text ∈ description, EndsLine text ∧ text.head? ≠ some ':'

/-- Whether the groups of a tag can be written on a line. -/
def IsWritable : Tag → Prop
  | .declaration _ name parent text =>
      name ≠ [] ∧ (∀ c ∈ name, isNameChar c = true) ∧
        (∀ word ∈ parent, word ≠ [] ∧ ∀ c ∈ word, isBlank c = false) ∧ IsDescribing (present text)
  | .field visibility name expr text =>
      (∀ word ∈ visibility, word ∈ visibilities) ∧ Text.IsWord name ∧
        (visibility = none → name ∉ visibilities) ∧ TypeExpr.IsTypeExpr expr ∧
          IsDescribing (present text)
  | .type expr description => TypeExpr.IsTypeExpr expr ∧ IsDescribing description
  | .param name expr description =>
      IsParamName name ∧ TypeExpr.IsTypeExpr expr ∧ IsDescribing description
  | .result expr name description =>
      TypeExpr.IsTypeExpr expr ∧ (∀ word ∈ name, Text.IsWord word) ∧
        (∀ text ∈ description, EndsLine text) ∧ (name = none → description = none)
  | .nonStatic | .other => False

/-! ## The rest of a line -/

theorem getD_present (text : Text) : (present text).getD [] = text := by
  cases text with
  | nil => rfl
  | cons c text => rfl

/-- What is written at the end of a line is read as the rest of it. -/
theorem restOfLine_spaced {description : Option Text} (h : ∀ text ∈ description, EndsLine text) :
    restOfLine (Text.skipBlanks (spaced description)) = (description.getD [], []) := by
  cases description with
  | none => rfl
  | some text =>
      have ht := h text rfl
      rw [spaced, Text.skipBlanks_cons_blank (by decide), Text.skipBlanks_eq_self ht.head_not_blank,
        restOfLine_eq_self ht.lineFeed_not_mem, Option.getD_some]

theorem IsDescribing.endsLine {description : Option Text} (h : IsDescribing description) :
    ∀ text ∈ description, EndsLine text := fun text ht => (h text ht).1

/-- Behind a part of a line there is a blank, if there is anything. -/
theorem head_spaced (description : Option Text) {p : Char → Bool} (hp : p ' ' = false) :
    ∀ c ∈ (spaced description).head?, p c = false := by
  cases description with
  | none => simp [spaced]
  | some text => simpa [spaced] using hp

/-! ## Classes and enums -/

/-- The parent is read back, and none is read where none is written. -/
theorem parentPart_extending {parent description : Option Text}
    (hp : ∀ word ∈ parent, word ≠ [] ∧ ∀ c ∈ word, isBlank c = false)
    (hd : IsDescribing description) :
    parentPart (extending parent ++ spaced description) = (parent, spaced description) := by
  cases parent with
  | none =>
      -- a description that begins with no colon is no parent
      have hcolon : (Text.skipBlanks (spaced description)).head? ≠ some ':' :=
        (endsExpr_description hd).2
      rw [extending, List.nil_append, parentPart]
      split
      · rename_i rest hrest
        rw [hrest] at hcolon
        exact absurd rfl hcolon
      · rfl
  | some word =>
      obtain ⟨hne, hblank⟩ := hp word rfl
      have hword : ∀ c ∈ word, (!isBlank c) = true := fun c hc => by rw [hblank c hc]; rfl
      have hhead : ∀ c ∈ (word ++ spaced description).head?, isBlank c = false :=
        Text.head_append hne (fun c hc => hblank c (List.mem_of_mem_head? hc)) _
      have hskip : Text.skipBlanks (' ' :: (word ++ spaced description)) =
          word ++ spaced description := by
        rw [Text.skipBlanks_cons_blank (by decide), Text.skipBlanks_eq_self hhead]
      have hcolon : Text.skipBlanks (extending (some word) ++ spaced description) =
          ':' :: ' ' :: (word ++ spaced description) := rfl
      have htake : (word ++ spaced description).takeWhile (!isBlank ·) = word :=
        Text.takeWhile_append hword (head_spaced description (p := (!isBlank ·)) (by decide))
      have hdrop : (word ++ spaced description).dropWhile (!isBlank ·) = spaced description :=
        Text.dropWhile_append hword (head_spaced description (p := (!isBlank ·)) (by decide))
      simp only [parentPart, hcolon, hskip, htake, hdrop]

theorem head_extending (parent description : Option Text) {p : Char → Bool} (hp : p ' ' = false) :
    ∀ c ∈ (extending parent ++ spaced description).head?, p c = false := by
  cases parent with
  | none => exact head_spaced description hp
  | some word => simpa [extending] using hp

theorem declaration?_append (keyword : Text) (isEnum : Bool) {name : Text}
    {parent description : Option Text} (hne : name ≠ []) (hn : ∀ c ∈ name, isNameChar c = true)
    (hp : ∀ word ∈ parent, word ≠ [] ∧ ∀ c ∈ word, isBlank c = false)
    (hd : IsDescribing description) :
    declaration? keyword isEnum
        (keyword ++ ' ' :: (name ++ (extending parent ++ spaced description))) =
      some (.declaration isEnum name parent (description.getD []), []) := by
  have hhead : ∀ c ∈ (name ++ (extending parent ++ spaced description)).head?,
      isBlank c = false := by
    refine Text.head_append hne (fun c hc => ?_) _
    have hchar := hn c (List.mem_of_mem_head? hc)
    rw [isNameChar, Bool.and_eq_true, Bool.not_eq_true'] at hchar
    exact hchar.1
  have htake : (name ++ (extending parent ++ spaced description)).takeWhile isNameChar = name :=
    Text.takeWhile_append hn (head_extending parent description (by decide))
  have hdrop : (name ++ (extending parent ++ spaced description)).dropWhile isNameChar =
      extending parent ++ spaced description :=
    Text.dropWhile_append hn (head_extending parent description (by decide))
  simp only [declaration?, afterKeyword?_append keyword hhead, Option.bind_eq_bind,
    Option.bind_some, htake, hdrop, parentPart_extending hp hd, restOfLine_spaced hd.endsLine]

/-- The line of a class or an enum is read back. -/
theorem read?_declarationLine (isEnum : Bool) {name : Text} {parent description : Option Text}
    (hne : name ≠ []) (hn : ∀ c ∈ name, isNameChar c = true)
    (hp : ∀ word ∈ parent, word ≠ [] ∧ ∀ c ∈ word, isBlank c = false)
    (hd : IsDescribing description) :
    read? (declarationLine isEnum name parent description) =
      some (.declaration isEnum name parent (description.getD []), []) := by
  cases isEnum with
  | false =>
      have hclass : declaration? "---@class".toList false
          (declarationLine false name parent description) = _ :=
        declaration?_append "---@class".toList false hne hn hp hd
      simp only [read?, hclass]
      rfl
  | true =>
      have hclass : declaration? "---@class".toList false
          (declarationLine true name parent description) = none := declaration?_eq_none false rfl
      have henum : declaration? "---@enum".toList true
          (declarationLine true name parent description) = _ :=
        declaration?_append "---@enum".toList true hne hn hp hd
      simp only [read?, hclass, henum]
      rfl

/-! ## Fields -/

/-- A field is read back from its name on. -/
theorem fieldBody?_append (visibility : Option Text) {name type : Text}
    {description : Option Text} (hn : Text.IsWord name) (ht : TypeExpr.IsTypeExpr type)
    (hd : IsDescribing description) :
    fieldBody? visibility (name ++ ' ' :: (type ++ spaced description)) =
      some (.field visibility name type (description.getD []), []) := by
  have hword : Text.word? (name ++ ' ' :: (type ++ spaced description)) =
      some (name, ' ' :: (type ++ spaced description)) :=
    Text.word?_append hn (Text.head_cons (by decide) _)
  have hblank : Text.afterBlanks? (' ' :: (type ++ spaced description)) =
      some (type ++ spaced description) := Text.afterBlanks?_space (ht.head_not_blank _)
  simp only [fieldBody?, hword, hblank, TypeExpr.read?_append ht (endsExpr_description hd),
    restOfLine_spaced hd.endsLine, Option.bind_eq_bind, Option.bind_some]

/-- A visibility in front of a blank is read. -/
theorem visibility?_append {word : Text} (h : word ∈ visibilities) (rest : Text) :
    Rule.visibility? (word ++ ' ' :: rest) = some (word, ' ' :: rest) := by
  simp only [visibilities, List.mem_cons, List.not_mem_nil, or_false] at h
  rcases h with rfl | rfl | rfl | rfl <;> rfl

theorem isWord_of_mem_visibilities {word : Text} (h : word ∈ visibilities) : Text.IsWord word := by
  simp only [visibilities, List.mem_cons, List.not_mem_nil, or_false] at h
  rcases h with rfl | rfl | rfl | rfl <;> exact ⟨by decide, by decide⟩

/-- The beginning of another word is no visibility, as no blank stands behind it. -/
theorem afterBlanks?_visibility? {name : Text} (hn : Text.IsWord name) (h : name ∉ visibilities)
    (rest : Text) :
    (Rule.visibility? (name ++ ' ' :: rest)).bind (fun found => Text.afterBlanks? found.2) =
      none := by
  by_contra hsome
  obtain ⟨body, hbody⟩ := Option.ne_none_iff_exists'.mp hsome
  obtain ⟨⟨word, behind⟩, hfound, hblanks⟩ := Option.bind_eq_some_iff.mp hbody
  obtain ⟨visibility, hmem, hread⟩ := List.exists_of_findSome?_eq_some hfound
  obtain ⟨behind', hprefix, heq⟩ := Option.map_eq_some_iff.mp hread
  obtain ⟨rfl, rfl⟩ := Prod.mk.inj heq
  have hsplit : visibility ++ behind' = name ++ ' ' :: rest :=
    List.isPrefixOf?_eq_some_iff_append_eq.mp hprefix
  have hbehind : ∀ c ∈ behind'.head?, isWord c = false := by
    cases behind' with
    | nil => simp
    | cons c behind' =>
        rw [Text.afterBlanks?, Option.ite_none_right_eq_some] at hblanks
        exact Text.head_cons (isWord_eq_false_of_isBlank hblanks.1) _
  -- both words are the longest run of word characters at the start of the text
  have hsame : visibility = name := by
    rw [← Text.takeWhile_append (isWord_of_mem_visibilities hmem).chars hbehind, hsplit]
    exact Text.takeWhile_append hn.chars (Text.head_cons (by decide) _)
  exact h (hsame ▸ hmem)

/-- A field is read back with its visibility, or without one. -/
theorem qualified_append {visibility : Option Text} {name type : Text}
    {description : Option Text} (hv : ∀ word ∈ visibility, word ∈ visibilities)
    (hn : Text.IsWord name) (hnv : visibility = none → name ∉ visibilities)
    (ht : TypeExpr.IsTypeExpr type) (hd : IsDescribing description) :
    let body := qualifying visibility ++ (name ++ ' ' :: (type ++ spaced description))
    (((Rule.visibility? body).bind fun found =>
        (Text.afterBlanks? found.2).bind (fieldBody? (some found.1))) <|> fieldBody? none body) =
      some (.field visibility name type (description.getD []), []) := by
  have hbody := fieldBody?_append visibility hn ht hd
  cases visibility with
  | none =>
      have hnone := afterBlanks?_visibility? hn (hnv rfl) (type ++ spaced description)
      simp only [qualifying, List.nil_append, hbody]
      cases hread : Rule.visibility? (name ++ ' ' :: (type ++ spaced description)) with
      | none => rfl
      | some found =>
          rw [hread, Option.bind_some] at hnone
          simp only [hnone, Option.bind_some, Option.bind_none]
          rfl
  | some word =>
      have hread := visibility?_append (hv word rfl) (name ++ ' ' :: (type ++ spaced description))
      have hblank : Text.afterBlanks? (' ' :: (name ++ ' ' :: (type ++ spaced description))) =
          some (name ++ ' ' :: (type ++ spaced description)) :=
        Text.afterBlanks?_space (hn.head_not_blank _)
      simp only [qualifying, List.append_assoc, List.singleton_append, hread, Option.bind_some,
        hblank, hbody]
      rfl

/-- The line of a field is read back. -/
theorem read?_fieldLine {visibility : Option Text} {name type : Text}
    {description : Option Text} (hv : ∀ word ∈ visibility, word ∈ visibilities)
    (hn : Text.IsWord name) (hnv : visibility = none → name ∉ visibilities)
    (ht : TypeExpr.IsTypeExpr type) (hd : IsDescribing description) :
    read? (fieldLine visibility name type description) =
      some (.field visibility name type (description.getD []), []) := by
  have hhead : ∀ c ∈ (qualifying visibility ++
      (name ++ ' ' :: (type ++ spaced description))).head?, isBlank c = false := by
    cases visibility with
    | none => exact hn.head_not_blank _
    | some word =>
        rw [qualifying, List.append_assoc]
        exact (isWord_of_mem_visibilities (hv word rfl)).head_not_blank _
  have hfield : field? (fieldLine visibility name type description) =
      some (.field visibility name type (description.getD []), []) := by
    have hbody : afterKeyword? "---@field".toList (fieldLine visibility name type description) =
        some _ := afterKeyword?_append _ hhead
    rw [Rule.field?_eq, hbody, Option.bind_some]
    exact qualified_append hv hn hnv ht hd
  have hclass : declaration? "---@class".toList false
      (fieldLine visibility name type description) = none := declaration?_eq_none false rfl
  have henum : declaration? "---@enum".toList true
      (fieldLine visibility name type description) = none := declaration?_eq_none true rfl
  simp only [read?, hclass, henum, hfield]
  rfl

/-! ## All tags -/

/-- **What is written on a line is read back.** The line of a tag is read as that tag, with its
groups as they were written, and nothing of the line is left. -/
theorem read?_line {tag : Tag} (h : tag.IsWritable) :
    read? tag.line = some (tag, []) ∧ lineGroups? tag.line = some tag.groups := by
  have hread : read? tag.line = some (tag, []) := by
    cases tag with
    | declaration isEnum name parent text =>
        obtain ⟨hne, hn, hp, hd⟩ := h
        have hline := read?_declarationLine isEnum hne hn hp hd
        rwa [getD_present] at hline
    | field visibility name expr text =>
        obtain ⟨hv, hn, hnv, ht, hd⟩ := h
        have hline := read?_fieldLine hv hn hnv ht hd
        rwa [getD_present] at hline
    | type expr description =>
        obtain ⟨ht, hd⟩ := h
        exact read?_typeLine ht hd
    | param name expr description =>
        obtain ⟨hn, ht, hd⟩ := h
        exact read?_paramLine hn ht hd
    | result expr name description =>
        obtain ⟨ht, hn, hd, hnd⟩ := h
        exact read?_resultLine ht hn hd hnd
    | nonStatic => exact h.elim
    | other => exact h.elim
  refine ⟨hread, ?_⟩
  rw [lineGroups?_eq, ofLine?, hread]
  rfl

/-- A parameter that is a function, whose type has a colon, a comma and blanks in it. -/
def callbackTag : Tag :=
  .param "cb".toList "fun(err: string, ok: boolean): nil".toList (some "Called when done".toList)

theorem callbackTag_isWritable : callbackTag.IsWritable := by
  refine ⟨.inl ⟨by decide, by decide⟩, TypeExpr.isTypeExpr_iff.mpr (by decide +kernel), ?_⟩
  intro text ht
  obtain rfl := Option.some.inj ht
  exact ⟨⟨by decide, by decide, by decide⟩, by decide⟩

theorem read?_callbackLine :
    callbackTag.IsWritable ∧
      callbackTag.line =
        "---@param cb fun(err: string, ok: boolean): nil Called when done".toList ∧
      read? callbackTag.line = some (callbackTag, []) :=
  ⟨callbackTag_isWritable, rfl, (read?_line callbackTag_isWritable).1⟩

end LuaReference.Tag
