import LuaReference.Proofs.Source.PathReading
import LuaReference.Tag.Basic

set_option autoImplicit false

/-! # Rules and their groups

A rule of tags has a keyword and groups behind it. A group is read with what stands in front of it;
some groups are optional, and what an optional group has caught may be missing. Here the rules are
given in that form, so that of a line no more is known than the rule that fits and what each of its
groups has caught (`lineGroups?`), and likewise for the header of a function. Reading by groups
agrees with reading tags and headers (`lineGroups?_eq`, `Declaration.headerGroups?_eq`), so the
groups that are used as names and types have always caught something (`isSome_of_lineGroups?`).
-/

namespace LuaReference

/-! ## Groups -/

/-- A group of a rule: how it is read, and whether the rule fits without it. -/
structure RuleGroup where
  read : Recogniser Text
  optional : Bool

/-- What the groups of a rule have caught, in their order; `none` stands for a group that has caught
nothing. -/
abbrev Groups := List (Option Text)

/-- What the group of that number has caught. The first group has number one. -/
def group (groups : Groups) (number : Nat) : Option Text := (groups[number - 1]?).join

namespace RuleGroup

/-- A group behind one or more blanks. -/
def spaced (read : Recogniser Text) : RuleGroup :=
  ⟨fun text => (Text.afterBlanks? text).bind read, false⟩

/-- An optional group. -/
def perhaps (part : Text → Option Text × Text) : RuleGroup where
  read text :=
    match part text with
    | (some word, rest) => some (word, rest)
    | (none, _) => none
  optional := true

/-- The rest of a line, which may be empty. -/
def untilEnd : RuleGroup := ⟨fun text => some (Tag.restOfLine (Text.skipBlanks text)), false⟩

/-- Reads groups one behind the other. An optional group is passed over if it cannot be read, or if
the groups behind it cannot be read after it. -/
def readAll : List RuleGroup → Recogniser Groups
  | [], text => some ([], text)
  | first :: more, text =>
      let withFirst := (first.read text).bind fun (word, behind) =>
        (readAll more behind).map fun (caught, rest) => (some word :: caught, rest)
      let without := (readAll more text).map fun (caught, rest) => (none :: caught, rest)
      withFirst <|> if first.optional then without else none

theorem readAll_spaced (read : Recogniser Text) (more : List RuleGroup) (text : Text) :
    readAll (spaced read :: more) text =
      ((Text.afterBlanks? text).bind read).bind fun (word, behind) =>
        (readAll more behind).map fun (caught, rest) => (some word :: caught, rest) := by
  simp [readAll, spaced]

/-! ## Optional groups -/

theorem readAll_optional (read : Recogniser Text) (more : List RuleGroup) (text : Text) :
    readAll (⟨read, true⟩ :: more) text =
      (((read text).bind fun (word, behind) =>
          (readAll more behind).map fun (caught, rest) => (some word :: caught, rest)) <|>
        (readAll more text).map fun (caught, rest) => (none :: caught, rest)) := by
  rw [readAll, if_pos rfl]

/-- Groups that can be read at the start of every text. -/
def AlwaysFit (groups : List RuleGroup) : Prop := ∀ text, ∃ found, readAll groups text = some found

theorem alwaysFit_nil : AlwaysFit [] := fun text => ⟨([], text), rfl⟩

theorem alwaysFit_untilEnd : AlwaysFit [untilEnd] := fun _ => ⟨_, rfl⟩

section Perhaps

variable {part : Text → Option Text × Text} {more : List RuleGroup}

/-- An optional group in front of groups that always fit catches what its part is. -/
theorem readAll_perhaps (hpart : ∀ text, (part text).1 = none → (part text).2 = text)
    (hmore : AlwaysFit more) (text : Text) :
    readAll (perhaps part :: more) text =
      (readAll more (part text).2).map fun found => ((part text).1 :: found.1, found.2) := by
  obtain ⟨found, hfound⟩ := hmore (part text).2
  rw [readAll]
  cases hread : part text with
  | mk word behind =>
      rw [hread] at hfound
      cases word with
      | none =>
          -- what catches nothing takes nothing, so passing over the group reads on at its place
          have hbehind : behind = text := by
            have hsame := hpart text
            rw [hread] at hsame
            exact hsame rfl
          subst hbehind
          simp [perhaps, hread]
      | some word => simp [perhaps, hread, hfound]

theorem alwaysFit_perhaps (hpart : ∀ text, (part text).1 = none → (part text).2 = text)
    (hmore : AlwaysFit more) : AlwaysFit (perhaps part :: more) := by
  intro text
  obtain ⟨found, hfound⟩ := hmore (part text).2
  rw [readAll_perhaps hpart hmore, hfound]
  exact ⟨_, rfl⟩

end Perhaps

end RuleGroup

/-! ## The parts that may be missing -/

namespace Tag

theorem descriptionPart_of_none (text : Text) (h : (descriptionPart text).1 = none) :
    (descriptionPart text).2 = text := by
  cases text with
  | nil => rfl
  | cons c rest =>
      rw [descriptionPart] at h ⊢
      split
      · rename_i hread
        rw [hread] at h
        cases h
      · rfl

theorem resultName_of_none (text : Text) (h : (resultName text).1 = none) :
    (resultName text).2 = text := by
  rw [resultName] at h ⊢
  split
  · rename_i hread
    rw [hread] at h
    cases h
  · rfl

theorem parentPart_of_none (text : Text) (h : (parentPart text).1 = none) :
    (parentPart text).2 = text := by
  rw [parentPart] at h ⊢
  split
  · rename_i rest hcolon
    rw [hcolon] at h
    simp only at h
    split at h
    · rfl
    · cases h
  · rfl

end Tag

/-! ## Rules -/

/-- The rules of tags. -/
inductive Rule where
  | declaration (isEnum : Bool)
  | field
  | type
  | param
  | result
  | nonStatic
  | other
deriving DecidableEq

namespace Rule

open RuleGroup (spaced perhaps untilEnd readAll)

/-- The name of a class or an enum. -/
def className? : Recogniser Text := fun text =>
  match text.takeWhile Tag.isNameChar with
  | [] => none
  | name => some (name, text.dropWhile Tag.isNameChar)

/-- The visibility of a field. -/
def visibility? : Recogniser Text := fun text =>
  Tag.visibilities.findSome? fun word => (word.isPrefixOf? text).map (word, ·)

/-- The groups of a class or an enum. -/
def declarationGroups : List RuleGroup := [spaced className?, perhaps Tag.parentPart, untilEnd]

/-- The groups of a field from its name on. -/
def fieldGroups : List RuleGroup := [spaced Text.word?, spaced TypeExpr.read?, untilEnd]

/-- Reads a keyword and the groups behind it. -/
def behindKeyword (keyword : Text) (groups : List RuleGroup) : Recogniser Groups := fun line =>
  (keyword.isPrefixOf? line).bind (readAll groups)

/-- Reads the groups of a rule at the start of a line that fits the rule. -/
def read? : Rule → Recogniser Groups
  | .declaration false => behindKeyword "---@class".toList declarationGroups
  | .declaration true => behindKeyword "---@enum".toList declarationGroups
  | .field =>
      behindKeyword "---@field".toList ({ spaced visibility? with optional := true } :: fieldGroups)
  | .type => behindKeyword "---@type".toList [spaced TypeExpr.read?, perhaps Tag.descriptionPart]
  | .param =>
      behindKeyword "---@param".toList
        [spaced Tag.paramName?, spaced TypeExpr.read?, perhaps Tag.descriptionPart]
  | .result =>
      behindKeyword "---@return".toList
        [spaced TypeExpr.read?, perhaps Tag.resultName, perhaps Tag.descriptionPart]
  | .nonStatic => fun line => (Tag.nonStatic? line).map fun found => ([], found.2)
  | .other => fun line => (Tag.other? line).map fun found => ([], found.2)

/-- The groups that are used as names and types. -/
def required : Rule → List Nat
  | .declaration _ => [1]
  | .field => [2, 3]
  | .type => [1]
  | .param => [1, 2]
  | .result => [1]
  | .nonStatic => []
  | .other => []

/-- The rules in the order in which they are tried. -/
def all : List Rule :=
  [.declaration false, .declaration true, .field, .type, .param, .result, .nonStatic, .other]

end Rule

/-- The rule that fits a line, and what its groups have caught. -/
def lineGroups? (line : Text) : Option (Rule × Groups) :=
  Rule.all.findSome? fun rule => (rule.read? line).map fun found => (rule, found.1)

/-! ## Tags by their groups -/

/-- The rule that a tag was read by, and its groups. -/
def Tag.groups : Tag → Rule × Groups
  | .declaration isEnum name parent text => (.declaration isEnum, [some name, parent, some text])
  | .field visibility name expr text => (.field, [visibility, some name, some expr, some text])
  | .type expr description => (Rule.type, [some expr, description])
  | .param name expr description => (.param, [some name, some expr, description])
  | .result expr name description => (.result, [some expr, name, description])
  | .nonStatic => (.nonStatic, [])
  | .other => (.other, [])

namespace Rule

open RuleGroup (spaced perhaps untilEnd readAll)

/-- Reads the tag of a rule. -/
def tag? : Rule → Recogniser Tag
  | .declaration false => Tag.declaration? "---@class".toList false
  | .declaration true => Tag.declaration? "---@enum".toList true
  | .field => Tag.field?
  | .type => Tag.type?
  | .param => Tag.param?
  | .result => Tag.result?
  | .nonStatic => Tag.nonStatic?
  | .other => Tag.other?

/-- A rule is read by groups as its tag is. -/
def Reads (rule : Rule) : Prop :=
  ∀ line, (rule.read? line).map (fun found => ((rule, found.1), found.2)) =
    (rule.tag? line).map fun found => (found.1.groups, found.2)

theorem behindKeyword_spaced (keyword : Text) (read : Recogniser Text) (more : List RuleGroup)
    (line : Text) :
    behindKeyword keyword (spaced read :: more) line =
      ((Tag.afterKeyword? keyword line).bind read).bind fun (word, behind) =>
        (readAll more behind).map fun (caught, rest) => (some word :: caught, rest) := by
  rw [behindKeyword, Tag.afterKeyword?]
  cases keyword.isPrefixOf? line with
  | none => rfl
  | some rest => exact RuleGroup.readAll_spaced read more rest

theorem reads_type : Reads .type := by
  intro line
  rw [read?, tag?, Tag.type?]
  generalize "---@type".toList = keyword
  simp only [behindKeyword_spaced,
    RuleGroup.readAll_perhaps Tag.descriptionPart_of_none RuleGroup.alwaysFit_nil]
  cases Tag.afterKeyword? keyword line with
  | none => rfl
  | some body => cases hexpr : TypeExpr.read? body <;> simp [hexpr, readAll, Tag.groups]

theorem reads_param : Reads .param := by
  intro line
  rw [read?, tag?, Tag.param?]
  generalize "---@param".toList = keyword
  simp only [behindKeyword_spaced, RuleGroup.readAll_spaced,
    RuleGroup.readAll_perhaps Tag.descriptionPart_of_none RuleGroup.alwaysFit_nil]
  cases Tag.afterKeyword? keyword line with
  | none => rfl
  | some body =>
      cases hname : Tag.paramName? body with
      | none => simp [hname]
      | some named =>
          cases hblanks : Text.afterBlanks? named.2 with
          | none => simp [hname, hblanks]
          | some behind =>
              cases hexpr : TypeExpr.read? behind <;>
                simp [hname, hblanks, hexpr, readAll, Tag.groups]

theorem reads_result : Reads .result := by
  intro line
  rw [read?, tag?, Tag.result?]
  generalize "---@return".toList = keyword
  simp only [behindKeyword_spaced,
    RuleGroup.readAll_perhaps Tag.descriptionPart_of_none RuleGroup.alwaysFit_nil,
    RuleGroup.readAll_perhaps Tag.resultName_of_none
      (RuleGroup.alwaysFit_perhaps Tag.descriptionPart_of_none RuleGroup.alwaysFit_nil)]
  cases Tag.afterKeyword? keyword line with
  | none => rfl
  | some body => cases hexpr : TypeExpr.read? body <;> simp [hexpr, readAll, Tag.groups]

theorem reads_declaration (isEnum : Bool) : Reads (.declaration isEnum) := by
  have hkeyword (keyword line : Text) :
      (behindKeyword keyword declarationGroups line).map
          (fun found => ((declaration isEnum, found.1), found.2)) =
        (Tag.declaration? keyword isEnum line).map
          fun found => (found.1.groups, found.2) := by
    simp only [declarationGroups, behindKeyword_spaced, Tag.declaration?,
      RuleGroup.readAll_perhaps Tag.parentPart_of_none RuleGroup.alwaysFit_untilEnd]
    cases Tag.afterKeyword? keyword line with
    | none => rfl
    | some body =>
        cases hname : body.takeWhile Tag.isNameChar <;>
          simp [hname, className?, readAll, untilEnd, Tag.groups]
  intro line
  cases isEnum with
  | false => exact hkeyword "---@class".toList line
  | true => exact hkeyword "---@enum".toList line

/-! ## Fields -/

/-- Of words none of which begins another one, at most one is read at the start of a text, so it
makes no difference whether what stands behind is read with the search for the word or after it. -/
theorem findSome?_bind_of_exclusive {α : Type} {words : List Text} {text : Text}
    (h : words.Pairwise fun first second => ¬ (first <+: text ∧ second <+: text))
    (next : Text → Text → Option α) :
    words.findSome? (fun word => (word.isPrefixOf? text).bind (next word)) =
      (words.findSome? fun word => (word.isPrefixOf? text).map (word, ·)).bind
        fun found => next found.1 found.2 := by
  induction words with
  | nil => rfl
  | cons word more ih =>
      rw [List.pairwise_cons] at h
      obtain ⟨hword, hmore⟩ := h
      cases hread : word.isPrefixOf? text with
      | none => simpa [hread] using ih hmore
      | some rest =>
          have hbegins : word <+: text := ⟨rest, List.isPrefixOf?_eq_some_iff_append_eq.mp hread⟩
          have hnone : more.findSome? (fun word => (word.isPrefixOf? text).bind (next word)) =
              none := by
            rw [List.findSome?_eq_none_iff]
            intro other hother
            cases hsecond : other.isPrefixOf? text with
            | none => rfl
            | some _ =>
                exact absurd
                  ⟨hbegins, ⟨_, List.isPrefixOf?_eq_some_iff_append_eq.mp hsecond⟩⟩
                  (hword other hother)
          cases hnext : next word rest <;> simp [hread, hnext, hnone]

/-- No visibility begins another one. -/
theorem visibilities_exclusive (text : Text) :
    Tag.visibilities.Pairwise fun first second => ¬ (first <+: text ∧ second <+: text) := by
  have hapart : Tag.visibilities.Pairwise
      fun first second => ¬ first <+: second ∧ ¬ second <+: first := by
    simp [Tag.visibilities]
  refine hapart.imp fun h hboth => ?_
  exact (List.prefix_or_prefix_of_prefix hboth.1 hboth.2).elim h.1 h.2

theorem readAll_fieldGroups (visibility : Option Text) (text : Text) :
    (readAll fieldGroups text).map (fun found => ((field, visibility :: found.1), found.2)) =
      ((Text.afterBlanks? text).bind (Tag.fieldBody? visibility)).map
        fun found => (found.1.groups, found.2) := by
  have hbody : Tag.fieldBody? visibility = fun body => Tag.fieldBody? visibility body := rfl
  simp only [fieldGroups, RuleGroup.readAll_spaced, hbody, Tag.fieldBody?]
  cases Text.afterBlanks? text with
  | none => rfl
  | some body =>
      cases hname : Text.word? body with
      | none => simp [hname]
      | some named =>
          cases hblanks : Text.afterBlanks? named.2 with
          | none => simp [hname, hblanks]
          | some behind =>
              cases hexpr : TypeExpr.read? behind <;>
                simp [hname, hblanks, hexpr, readAll, untilEnd, Tag.groups]

/-- The visibility of a field may be read before the rest of the field is tried. -/
theorem field?_eq (line : Text) :
    Tag.field? line = (Tag.afterKeyword? "---@field".toList line).bind fun body =>
      ((visibility? body).bind fun (word, behind) =>
        (Text.afterBlanks? behind).bind (Tag.fieldBody? (some word))) <|>
      Tag.fieldBody? none body := by
  rw [Tag.field?]
  cases Tag.afterKeyword? "---@field".toList line with
  | none => rfl
  | some body =>
      have hvisible := findSome?_bind_of_exclusive (visibilities_exclusive body)
        fun word behind => (Text.afterBlanks? behind).bind (Tag.fieldBody? (some word))
      simp only [← Option.bind_assoc] at hvisible
      exact congrArg (· <|> Tag.fieldBody? none body) hvisible

theorem reads_field : Reads .field := by
  intro line
  simp only [read?, tag?, behindKeyword, field?_eq, Tag.afterKeyword?, spaced]
  cases "---@field".toList.isPrefixOf? line with
  | none => rfl
  | some text =>
      have hname := readAll_fieldGroups none text
      simp only [Option.bind_some, RuleGroup.readAll_optional]
      cases hblanks : Text.afterBlanks? text with
      | none =>
          rw [hblanks] at hname
          simpa using hname
      | some body =>
          -- both readings fall back on a field without a visibility, behind the same blanks
          rw [hblanks] at hname
          cases hvisible : visibility? body with
          | none => simpa [hvisible, Function.comp_def] using hname
          | some found =>
              have hread := readAll_fieldGroups (some found.1) found.2
              simp [hvisible, Option.map_or, Function.comp_def, hread, hname]

/-! ## All rules -/

theorem reads_nonStatic : Reads .nonStatic := by
  intro line
  simp [read?, tag?, Tag.nonStatic?, Function.comp_def, Tag.groups]

theorem reads_other : Reads .other := by
  intro line
  simp only [read?, tag?, Option.map_map]
  refine Option.map_congr fun found hfound => ?_
  have htag : found.1 = .other := by
    obtain ⟨text, -, hfound⟩ := Option.bind_eq_some_iff.mp hfound
    split at hfound
    · rw [Option.ite_none_right_eq_some] at hfound
      rw [← Option.some.inj hfound.2]
    · cases hfound
  simp [htag, Tag.groups]

/-- **Every rule reads by groups what it reads as a tag.** -/
theorem reads (rule : Rule) : Reads rule := by
  cases rule with
  | declaration isEnum => exact reads_declaration isEnum
  | field => exact reads_field
  | type => exact reads_type
  | param => exact reads_param
  | result => exact reads_result
  | nonStatic => exact reads_nonStatic
  | other => exact reads_other

end Rule

/-- A line is read by the first rule that fits. -/
theorem Tag.read?_eq (line : Text) : Tag.read? line = Rule.all.findSome? (Rule.tag? · line) := by
  have hcons (first : Rule) (more : List Rule) : (first :: more).findSome? (Rule.tag? · line) =
      (first.tag? line <|> more.findSome? (Rule.tag? · line)) := by
    rw [List.findSome?_cons]
    cases first.tag? line <;> rfl
  simp only [Rule.all, hcons]
  simp [Tag.read?, Rule.tag?]

/-- **The groups of a line are the groups of its tag.** -/
theorem lineGroups?_eq (line : Text) : lineGroups? line = (Tag.ofLine? line).map Tag.groups := by
  have hrule (rule : Rule) : (rule.read? line).map (fun found => (rule, found.1)) =
      (rule.tag? line).map fun found => found.1.groups := by
    have hreads := congrArg (Option.map Prod.fst) (Rule.reads rule line)
    simpa [Function.comp_def] using hreads
  rw [lineGroups?, Tag.ofLine?, Tag.read?_eq, List.map_findSome?, List.map_findSome?]
  congr 1
  funext rule
  simp [hrule, Function.comp_def]

/-- **No group that is used as a name or a type has caught nothing.** -/
theorem isSome_of_lineGroups? {line : Text} {rule : Rule} {groups : Groups}
    (h : lineGroups? line = some (rule, groups)) :
    ∀ number ∈ rule.required, (group groups number).isSome := by
  rw [lineGroups?_eq] at h
  obtain ⟨tag, -, htag⟩ := Option.map_eq_some_iff.mp h
  cases tag <;> cases htag <;> simp [Rule.required, group]

/-! ## Function headers -/

/-- The groups of a function header: the owner, what separates it from the name, the name and the
parameters. -/
def FunctionHeader.groups (header : FunctionHeader) : Groups :=
  [header.owner.map (dotted ·.path), header.owner.map ([·.separator.mark]), some header.name,
    some header.params]

namespace Declaration

/-- Reads the name of a method behind the path of its owner. -/
def methodName? : Recogniser Text := fun text =>
  if text.head? = some ':' then Text.word? text.tail else none

/-- Reads the groups of the name of a function with its owner: without a colon behind the path, the
last word of the path, if there is one, is the name. -/
def ownedGroups? : Recogniser Groups := fun text => do
  let (path, behind) ← path? text
  let method := (methodName? behind).map fun (name, rest) =>
    ([some (dotted path), some [':'], some name], rest)
  let owned :=
    if path.dropLast.isEmpty then [none, none, path.getLast?]
    else [some (dotted path.dropLast), some ['.'], path.getLast?]
  method <|> some (owned, behind)

/-- Reads the groups of a function header at the start of a text. -/
def headerGroupsAt? : Recogniser Groups := fun text => do
  let body ← Tag.afterKeyword? "function".toList text
  let (owned, behind) ← ownedGroups? body
  let (params, rest) ← params? (Text.skipBlanks behind)
  some (owned ++ [some params], rest)

/-- The groups of the function header on a line. -/
def headerGroups? (line : Text) : Option Groups := (search headerGroupsAt? line).map Found.value

/-- The groups of an owner and the name behind it. -/
def ownedGroups (found : Option Owner × Text) : Groups :=
  [found.1.map (dotted ·.path), found.1.map ([·.separator.mark]), some found.2]

/-- A path is never empty, so there is always a name. -/
theorem ownedGroups?_eq (text : Text) :
    ownedGroups? text = (ownedName? text).map fun found => (ownedGroups found.1, found.2) := by
  rw [ownedGroups?, ownedName?]
  cases hpath : path? text with
  | none => rfl
  | some found =>
      obtain ⟨path, behind⟩ := found
      have hwords : IsPath path := (eq_dotted_of_path? hpath).2
      have hlast : path.getLast? = some (path.getLastD []) := by
        obtain ⟨words, last, rfl⟩ := (List.eq_nil_or_concat path).resolve_left hwords.ne_nil
        simp
      simp only [Option.bind_eq_bind, Option.bind_some, hlast]
      generalize path.dropLast = front
      generalize path.getLastD [] = last
      rcases behind with _ | ⟨c, rest⟩
      · cases front <;> rfl
      · by_cases hc : c = ':'
        · subst hc
          cases hname : Text.word? rest with
          | some found => simp [methodName?, hname, ownedGroups, Separator.mark]
          | none => cases front <;> simp [methodName?, hname, ownedGroups, Separator.mark]
        · cases front <;> simp [methodName?, hc, ownedGroups, Separator.mark]

theorem headerGroupsAt?_eq (text : Text) :
    headerGroupsAt? text = (header? text).map fun found => (found.1.groups, found.2) := by
  rw [headerGroupsAt?, header?]
  cases Tag.afterKeyword? "function".toList text with
  | none => rfl
  | some body =>
      simp only [Option.bind_eq_bind, Option.bind_some, ownedGroups?_eq]
      cases ownedName? body with
      | none => rfl
      | some named =>
          cases hparams : params? (Text.skipBlanks named.2) <;>
            simp [hparams, ownedGroups, FunctionHeader.groups]

end Declaration

/-- What is found by reading something else is found in the same place. -/
theorem search_map {α β : Type} (change : α → β) (recognise : Recogniser α) (text : Text) :
    (search (fun text => (recognise text).map fun found => (change found.1, found.2)) text).map
        Found.value =
      ((search recognise text).map Found.value).map change := by
  induction text with
  | nil => cases h : recognise [] <;> simp [search, h]
  | cons c text ih =>
      cases h : recognise (c :: text) with
      | some found => simp [search, h]
      | none => simpa [search, h, Function.comp_def] using ih

/-- **The groups of the header on a line are the groups of its parts.** -/
theorem Declaration.headerGroups?_eq (line : Text) :
    headerGroups? line = (headerOf? line).map FunctionHeader.groups := by
  rw [headerGroups?, funext headerGroupsAt?_eq, search_map, headerOf?]

/-- Nor has the name of a function. -/
theorem Declaration.isSome_of_headerGroups? {line : Text} {groups : Groups}
    (h : headerGroups? line = some groups) : (group groups 3).isSome := by
  rw [headerGroups?_eq] at h
  obtain ⟨header, -, rfl⟩ := Option.map_eq_some_iff.mp h
  rfl

end LuaReference
