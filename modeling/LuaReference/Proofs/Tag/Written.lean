import LuaReference.Proofs.Tag.TypeGrammar
import LuaReference.Proofs.Text.Lines
import LuaReference.Tag.Basic

set_option autoImplicit false

/-! # Written comment lines

The lines of a documentation comment are written here as the tags of the documentation's users
have them: a text behind the marker, a type, a parameter, a returned value. Each of them is read
back as it was written (`ofLine?_textLine`, `read?_typeLine`, `read?_paramLine`,
`read?_resultLine`), whatever type expression and description stand in it.
-/

namespace LuaReference

/-- A description as it stands on one line: not empty, trimmed and without line breaks. -/
structure IsDescription (text : Text) : Prop where
  ne_nil : text ≠ []
  trimmed : Text.trim text = text
  oneLine : Text.OneLine text

theorem IsDescription.head_not_blank {text : Text} (h : IsDescription text) :
    ∀ c ∈ text.head?, isBlank c = false := (Text.trim_eq_self_iff.mp h.trimmed).1

theorem IsDescription.getLast_not_blank {text : Text} (h : IsDescription text) :
    ∀ c ∈ text.getLast?, isBlank c = false := (Text.trim_eq_self_iff.mp h.trimmed).2

theorem IsDescription.endsInInk {text : Text} (h : IsDescription text) : Text.EndsInInk text :=
  ⟨h.ne_nil, h.getLast_not_blank⟩

/-- A text as it may stand behind a blank at the end of a line: it begins with no blank and holds no
line feed. Blanks at its end belong to it. -/
structure EndsLine (text : Text) : Prop where
  ne_nil : text ≠ []
  head_not_blank : ∀ c ∈ text.head?, isBlank c = false
  lineFeed_not_mem : '\n' ∉ text

theorem IsDescription.endsLine {text : Text} (h : IsDescription text) : EndsLine text :=
  ⟨h.ne_nil, h.head_not_blank, fun hmem => h.oneLine.ne_lineFeed hmem rfl⟩

theorem TypeExpr.IsTypeExpr.endsInInk {type : Text} (h : TypeExpr.IsTypeExpr type) :
    Text.EndsInInk type := ⟨h.ne_nil, h.getLast_not_blank⟩

namespace Tag

/-! ## The lines -/

/-- A part of a line behind a blank; nothing for an absent part. -/
def spaced : Option Text → Text
  | none => []
  | some text => ' ' :: text

/-- A line of plain text. -/
def textLine (text : Text) : Text := docMarker ++ ' ' :: text

/-- The line of a type. -/
def typeLine (type : Text) (description : Option Text) : Text :=
  "---@type".toList ++ ' ' :: (type ++ spaced description)

/-- The line of a parameter. -/
def paramLine (name type : Text) (description : Option Text) : Text :=
  "---@param".toList ++ ' ' :: (name ++ ' ' :: (type ++ spaced description))

/-- The line of a returned value. -/
def resultLine (type : Text) (name description : Option Text) : Text :=
  "---@return".toList ++ ' ' :: (type ++ (spaced name ++ spaced description))

/-! ## The parts of a line -/

/-- Behind a keyword and one blank stands the body of a tag. -/
theorem afterKeyword?_append (keyword : Text) {body : Text}
    (h : ∀ c ∈ body.head?, isBlank c = false) :
    afterKeyword? keyword (keyword ++ ' ' :: body) = some body := by
  rw [afterKeyword?, Text.isPrefixOf?_append, Option.bind_some]
  exact Text.afterBlanks?_space h

/-- The rest of a line is the whole text if there is no line feed in it. -/
theorem restOfLine_eq_self {text : Text} (h : '\n' ∉ text) : restOfLine text = (text, []) := by
  have hfeed : ∀ c ∈ text, (c != '\n') = true := fun c hc => by
    rw [bne_iff_ne]
    rintro rfl
    exact h hc
  rw [restOfLine, List.takeWhile_eq_self_iff.mpr hfeed, List.dropWhile_eq_nil_iff.mpr hfeed]

/-- A description that a blank separates from what stands in front of it is read whole. -/
theorem descriptionPart_spaced {description : Option Text}
    (h : ∀ text ∈ description, EndsLine text) :
    descriptionPart (spaced description) = (description, []) := by
  cases description with
  | none => rfl
  | some text =>
      have ht := h text rfl
      cases text with
      | nil => exact absurd rfl ht.ne_nil
      | cons c rest =>
          have hc : isBlank c = false := ht.head_not_blank c rfl
          have hne : c ≠ '\n' := fun heq => ht.lineFeed_not_mem (heq ▸ List.mem_cons_self)
          have hread : description? (c :: rest) = some (c :: rest, []) := by
            rw [description?, hc]
            simp only [Bool.false_eq_true, if_false, hne, restOfLine_eq_self ht.lineFeed_not_mem]
          rw [spaced, descriptionPart, if_pos (by decide), hread]

/-- What stands behind a type on a line does not continue the type. -/
theorem endsExpr_spaced (part : Option Text) (rest : Text)
    (hb : ∀ text ∈ part, ∀ c ∈ (text ++ rest).head?, isBlank c = false ∧ c ≠ ':')
    (hr : part = none → TypeExpr.EndsExpr rest) : TypeExpr.EndsExpr (spaced part ++ rest) := by
  cases part with
  | none => exact hr rfl
  | some text =>
      refine .cons (by decide) (fun c hc => (hb text rfl c hc).1) fun hcolon => ?_
      exact (hb text rfl ':' hcolon).2 rfl

/-- A description that begins with no colon ends the type in front of it. -/
theorem endsExpr_description {description : Option Text}
    (h : ∀ text ∈ description, EndsLine text ∧ text.head? ≠ some ':') :
    TypeExpr.EndsExpr (spaced description) := by
  have hends := endsExpr_spaced description [] (fun text ht c hc => by
    rw [List.append_nil] at hc
    refine ⟨(h text ht).1.head_not_blank c hc, ?_⟩
    rintro rfl
    exact (h text ht).2 hc) (fun _ => .nil)
  rwa [List.append_nil] at hends

/-! ## Plain text -/

/-- A text that is no keyword: it does not begin with an at sign and a word character. -/
def NoKeyword (text : Text) : Prop := ∀ c rest, text = '@' :: c :: rest → isWord c = false

theorem other?_textLine {text : Text} (hd : IsDescription text) (hk : NoKeyword text) :
    other? (textLine text) = none := by
  have hskip : Text.skipBlanks (' ' :: text) = text := by
    rw [Text.skipBlanks_cons_blank (by decide), Text.skipBlanks_eq_self hd.head_not_blank]
  rw [other?, textLine, Text.isPrefixOf?_append, Option.bind_eq_bind, Option.bind_some, hskip]
  split
  · rename_i c rest
    rw [if_neg (by simp [hk c rest rfl])]
  · rfl

/-- A line of plain text holds no tag. -/
theorem ofLine?_textLine {text : Text} (hd : IsDescription text) (hk : NoKeyword text) :
    ofLine? (textLine text) = none := by
  have hread : read? (textLine text) = other? (textLine text) := rfl
  rw [ofLine?, hread, other?_textLine hd hk]
  rfl

/-- The text of a line of plain text. -/
theorem commentText_textLine {text : Text} (hd : IsDescription text) :
    commentText (textLine text) = text := by
  rw [commentText, textLine, Text.isPrefixOf?_append, Option.getD_some, Text.trim,
    Text.skipBlanks_cons_blank (by decide)]
  exact hd.trimmed

/-! ## Tags

A rule fails on a line with another keyword, so the rule of the line's own keyword decides. -/

theorem declaration?_eq_none {keyword line : Text} (isEnum : Bool)
    (h : afterKeyword? keyword line = none) : declaration? keyword isEnum line = none := by
  rw [declaration?, h]
  rfl

theorem field?_eq_none {line : Text} (h : afterKeyword? "---@field".toList line = none) :
    field? line = none := by
  rw [field?, h]
  rfl

theorem type?_eq_none {line : Text} (h : afterKeyword? "---@type".toList line = none) :
    type? line = none := by
  rw [type?, h]
  rfl

theorem param?_eq_none {line : Text} (h : afterKeyword? "---@param".toList line = none) :
    param? line = none := by
  rw [param?, h]
  rfl

/-- The line of a type is read back. -/
theorem read?_typeLine {type : Text} {description : Option Text}
    (ht : TypeExpr.IsTypeExpr type)
    (hd : ∀ text ∈ description, EndsLine text ∧ text.head? ≠ some ':') :
    read? (typeLine type description) = some (.type type description, []) := by
  have htype : type? (typeLine type description) = some (.type type description, []) := by
    have hbody : afterKeyword? "---@type".toList (typeLine type description) =
        some (type ++ spaced description) := afterKeyword?_append _ (ht.head_not_blank _)
    simp only [type?, hbody, TypeExpr.read?_append ht (endsExpr_description hd),
      descriptionPart_spaced (fun text h => (hd text h).1), Option.bind_eq_bind, Option.bind_some]
  -- the keyword of the line is known, so the rules in front of its own fail by computation
  have hclass : declaration? "---@class".toList false (typeLine type description) = none :=
    declaration?_eq_none false rfl
  have henum : declaration? "---@enum".toList true (typeLine type description) = none :=
    declaration?_eq_none true rfl
  have hfield : field? (typeLine type description) = none := field?_eq_none rfl
  simp only [read?, hclass, henum, hfield, htype]
  rfl

/-- The name of a parameter: a word, or three dots. -/
def IsParamName (name : Text) : Prop := Text.IsWord name ∨ name = "...".toList

theorem IsParamName.head_not_blank {name : Text} (h : IsParamName name) (rest : Text) :
    ∀ c ∈ (name ++ rest).head?, isBlank c = false := by
  rcases h with h | rfl
  · exact h.head_not_blank rest
  · exact Text.head_cons (by decide) _

theorem IsParamName.endsInInk {name : Text} (h : IsParamName name) : Text.EndsInInk name := by
  rcases h with h | rfl
  · exact h.endsInInk
  · exact ⟨by decide, by decide⟩

theorem IsParamName.oneLine {name : Text} (h : IsParamName name) : Text.OneLine name := by
  rcases h with h | rfl
  · exact h.oneLine
  · decide

/-- A mark that is neither a word character nor a dot stands in no name. -/
theorem IsParamName.ne_mark {name : Text} (h : IsParamName name) {mark : Char}
    (hm : isWord mark = false) (hdot : mark ≠ '.') : ∀ c ∈ name, c ≠ mark := by
  rcases h with h | rfl
  · exact fun c hc => ne_of_test (h.chars c hc) hm
  · intro c hc heq
    obtain rfl : c = '.' := by simpa using hc
    exact hdot heq.symm

theorem paramName?_append {name : Text} (h : IsParamName name) (rest : Text) :
    paramName? (name ++ ' ' :: rest) = some (name, ' ' :: rest) := by
  rcases h with h | rfl
  · rw [paramName?, Text.word?_append h (by simp; decide)]
    rfl
  · rfl

/-- The line of a parameter is read back. -/
theorem read?_paramLine {name type : Text} {description : Option Text} (hn : IsParamName name)
    (ht : TypeExpr.IsTypeExpr type)
    (hd : ∀ text ∈ description, EndsLine text ∧ text.head? ≠ some ':') :
    read? (paramLine name type description) = some (.param name type description, []) := by
  have hblank : Text.afterBlanks? (' ' :: (type ++ spaced description)) =
      some (type ++ spaced description) :=
    Text.afterBlanks?_space (ht.head_not_blank _)
  have hparam : param? (paramLine name type description) =
      some (.param name type description, []) := by
    have hbody : afterKeyword? "---@param".toList (paramLine name type description) =
        some (name ++ ' ' :: (type ++ spaced description)) :=
      afterKeyword?_append _ (hn.head_not_blank _)
    simp only [param?, hbody, paramName?_append hn, hblank,
      TypeExpr.read?_append ht (endsExpr_description hd),
      descriptionPart_spaced (fun text h => (hd text h).1), Option.bind_eq_bind, Option.bind_some]
  have hclass : declaration? "---@class".toList false (paramLine name type description) = none :=
    declaration?_eq_none false rfl
  have henum : declaration? "---@enum".toList true (paramLine name type description) = none :=
    declaration?_eq_none true rfl
  have hfield : field? (paramLine name type description) = none := field?_eq_none rfl
  have htype : type? (paramLine name type description) = none := type?_eq_none rfl
  simp only [read?, hclass, henum, hfield, htype, hparam]
  rfl

theorem resultName_spaced {name description : Option Text} (hn : ∀ word ∈ name, Text.IsWord word)
    (hd : name = none → description = none) :
    resultName (spaced name ++ spaced description) = (name, spaced description) := by
  cases name with
  | none =>
      rw [hd rfl]
      rfl
  | some word =>
      have hword := hn word rfl
      have hblank : Text.afterBlanks? (' ' :: (word ++ spaced description)) =
          some (word ++ spaced description) :=
        Text.afterBlanks?_space (hword.head_not_blank _)
      have hend : ∀ c ∈ (spaced description).head?, isWord c = false := by
        cases description with
        | none => simp [spaced]
        | some text =>
            simp [spaced]
            decide
      rw [resultName, spaced, List.cons_append, hblank, Option.bind_some,
        Text.word?_append hword hend]

/-- The line of a returned value is read back. A description needs a name in front of it. -/
theorem read?_resultLine {type : Text} {name description : Option Text}
    (ht : TypeExpr.IsTypeExpr type) (hn : ∀ word ∈ name, Text.IsWord word)
    (hd : ∀ text ∈ description, EndsLine text) (hnd : name = none → description = none) :
    read? (resultLine type name description) = some (.result type name description, []) := by
  -- a name begins with a word character, so it cannot be the result of a function type
  have hends : TypeExpr.EndsExpr (spaced name ++ spaced description) := by
    refine endsExpr_spaced _ _ (fun word hw c hc => ?_) fun h => ?_
    · obtain ⟨d, hdmem, hdw⟩ := (hn word hw).head (spaced description)
      obtain rfl := Option.mem_unique hc hdmem
      exact ⟨isBlank_eq_false_of_isWord hdw, ne_of_test hdw (by decide)⟩
    · rw [hnd h]
      exact .nil
  have hresult : result? (resultLine type name description) =
      some (.result type name description, []) := by
    have hbody : afterKeyword? "---@return".toList (resultLine type name description) =
        some (type ++ (spaced name ++ spaced description)) :=
      afterKeyword?_append _ (ht.head_not_blank _)
    simp only [result?, hbody, TypeExpr.read?_append ht hends, resultName_spaced hn hnd,
      descriptionPart_spaced hd, Option.bind_eq_bind, Option.bind_some]
  have hclass : declaration? "---@class".toList false (resultLine type name description) = none :=
    declaration?_eq_none false rfl
  have henum : declaration? "---@enum".toList true (resultLine type name description) = none :=
    declaration?_eq_none true rfl
  have hfield : field? (resultLine type name description) = none := field?_eq_none rfl
  have htype : type? (resultLine type name description) = none := type?_eq_none rfl
  have hparam : param? (resultLine type name description) = none := param?_eq_none rfl
  simp only [read?, hclass, henum, hfield, htype, hparam, hresult]
  rfl

/-! ## The lines as comments -/

/-- A line of documentation as the reader of a source meets it. -/
structure IsDocLine (line : Text) : Prop where
  trimmed : Text.trim line = line
  oneLine : Text.OneLine line
  isDoc : isDocComment line = true

theorem spaced_endsInInk {text : Text} (h : Text.EndsInInk text) {part : Option Text}
    (hp : ∀ words ∈ part, Text.EndsInInk words) : Text.EndsInInk (text ++ spaced part) := by
  cases part with
  | none =>
      rw [spaced, List.append_nil]
      exact h
  | some words =>
      have hsplit : text ++ spaced (some words) = (text ++ [' ']) ++ words := by simp [spaced]
      rw [hsplit]
      exact (hp words rfl).append _

theorem spaced_oneLine {part : Option Text} (hp : ∀ words ∈ part, Text.OneLine words) :
    Text.OneLine (spaced part) := by
  cases part with
  | none => exact fun c hc => absurd hc (List.not_mem_nil)
  | some words => exact .cons (by decide) (hp words rfl)

/-- A mark and a body behind a blank make a line of documentation, if the mark alone makes
one. -/
theorem isDocLine_append {mark body : Text} (hm : Text.OneLine mark)
    (hhead : mark.head? = some '-') (hdoc : isDocComment (mark ++ ' ' :: body) = true)
    (hb : Text.EndsInInk body) (hline : Text.OneLine body) : IsDocLine (mark ++ ' ' :: body) where
  trimmed := by
    have hsplit : mark ++ ' ' :: body = (mark ++ [' ']) ++ body := by simp
    have hfirst : ∀ c ∈ (mark ++ ' ' :: body).head?, isBlank c = false := by
      intro c hc
      rw [List.head?_append, hhead] at hc
      obtain rfl : '-' = c := Option.some.inj hc
      decide
    refine Text.EndsInInk.trim_eq_self ?_ hfirst
    rw [hsplit]
    exact hb.append _
  oneLine := hm.append (.cons (by decide) hline)
  isDoc := hdoc

theorem isDocLine_textLine {text : Text} (h : IsDescription text) : IsDocLine (textLine text) :=
  isDocLine_append (by decide) rfl rfl h.endsInInk h.oneLine

theorem isDocLine_paramLine {name type : Text} {description : Option Text}
    (hn : IsParamName name) (ht : TypeExpr.IsTypeExpr type) (hline : Text.OneLine type)
    (hd : ∀ text ∈ description, IsDescription text) :
    IsDocLine (paramLine name type description) := by
  have hink := spaced_endsInInk ht.endsInInk (fun text h => (hd text h).endsInInk)
  have hbody : name ++ ' ' :: (type ++ spaced description) =
      (name ++ [' ']) ++ (type ++ spaced description) := by simp
  refine isDocLine_append (by decide) rfl rfl (hbody ▸ hink.append _) ?_
  exact hn.oneLine.append (.cons (by decide)
    (hline.append (spaced_oneLine fun text h => (hd text h).oneLine)))

theorem isDocLine_resultLine {type : Text} {name description : Option Text}
    (ht : TypeExpr.IsTypeExpr type) (hline : Text.OneLine type)
    (hn : ∀ word ∈ name, Text.IsWord word) (hd : ∀ text ∈ description, IsDescription text) :
    IsDocLine (resultLine type name description) := by
  have hname := spaced_endsInInk ht.endsInInk (fun word h => (hn word h).endsInInk)
  have hink := spaced_endsInInk hname (fun text h => (hd text h).endsInInk)
  rw [List.append_assoc] at hink
  refine isDocLine_append (by decide) rfl rfl hink (hline.append ?_)
  exact (spaced_oneLine fun word h => (hn word h).oneLine).append
    (spaced_oneLine fun text h => (hd text h).oneLine)

end Tag

end LuaReference
