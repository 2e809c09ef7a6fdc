import LuaReference.Proofs.Tag.RuleReading
import LuaReference.Proofs.Tag.WrittenTag

set_option autoImplicit false

/-! # What is read of a line

A tag is read from the start of its line by a rule that need not reach the end of the line, so text
may be left that no part of the documentation holds. All that is read stands in the tag: a line
splits into the parts of its tag, with blanks only in front of each, and what is left. The main
statement, `splitsInto_of_read?`, says besides what can be left of a trimmed line. It is nothing
where a tag says something about what it names, as classes, enums and fields always do; otherwise
nothing or a text that touches the last part without a blank.

Such a text is lost. `---@type number,string` is read as the type `number`
(`read?_typesWithComma`), though a line that does not fit its rule is meant to say nothing.
-/

namespace LuaReference.Tag

/-! ## Splitting a text -/

/-- A text splits into parts, in their order and with nothing but blanks in front of each, and a
rest. -/
inductive SplitsInto : Text → List Text → Text → Prop
  | nil (rest : Text) : SplitsInto rest [] rest
  | cons {blanks text rest : Text} {parts : List Text} (hb : ∀ c ∈ blanks, isBlank c = true)
      (part : Text) (h : SplitsInto text parts rest) :
      SplitsInto (blanks ++ (part ++ text)) (part :: parts) rest

namespace SplitsInto

variable {text middle rest : Text} {front back parts : List Text}

/-- A part that stands at the start of the text, or touches the part in front of it. -/
theorem cons_glued (part : Text) (h : SplitsInto text parts rest) :
    SplitsInto (part ++ text) (part :: parts) rest := by
  have hcons := cons (show ∀ c ∈ ([] : Text), isBlank c = true by simp) part h
  rwa [List.nil_append] at hcons

theorem append (h : SplitsInto text front middle) (hb : SplitsInto middle back rest) :
    SplitsInto text (front ++ back) rest := by
  induction h with
  | nil middle => exact hb
  | cons hblanks part _ ih => exact .cons hblanks part (ih hb)

/-- More blanks in front of a first part. -/
theorem blanks_append {part : Text} (h : SplitsInto text (part :: parts) rest) {blanks : Text}
    (hb : ∀ c ∈ blanks, isBlank c = true) : SplitsInto (blanks ++ text) (part :: parts) rest := by
  cases h with
  | cons hmore _ h =>
      rw [← List.append_assoc]
      exact .cons (fun c hc => (List.mem_append.mp hc).elim (hb c) (hmore c)) part h

theorem isSuffix (h : SplitsInto text parts rest) : rest <:+ text := by
  induction h with
  | nil rest => exact List.suffix_refl rest
  | @cons blanks text rest _ _ part _ ih =>
      exact ih.trans ((List.suffix_append part text).trans (List.suffix_append blanks _))

end SplitsInto

/-! ## The parts of a tag -/

/-- How a declaration names what it extends. -/
def extension : Option Text → List Text
  | none => []
  | some parent => [[':'], parent]

/-- The keyword of a tag, the names and types behind it, and the colon in front of a parent. -/
def front : Tag → List Text
  | .declaration isEnum name parent _ => declarationKeyword isEnum :: name :: extension parent
  | .field visibility name expr _ => "---@field".toList :: (visibility.toList ++ [name, expr])
  | .type expr _ => ["---@type".toList, expr]
  | .param name expr _ => ["---@param".toList, name, expr]
  | .result expr name _ => "---@return".toList :: expr :: name.toList
  | .nonStatic | .other => []

/-- What a tag says about what it names. -/
def remark : Tag → Option Text
  | .declaration _ _ _ text | .field _ _ _ text => some text
  | .type _ description | .param _ _ description | .result _ _ description => description
  | .nonStatic | .other => none

/-- All that a tag holds of its line. -/
def parts (tag : Tag) : List Text := tag.front ++ tag.remark.toList

/-- Whether a tag holds more of its line than a keyword. -/
def HasGroups (tag : Tag) : Prop := tag ≠ .nonStatic ∧ tag ≠ .other

/-! ## The end of a line -/

theorem splitsInto_restOfLine (text : Text) :
    SplitsInto text [(restOfLine text).1] (restOfLine text).2 := by
  have hsplit : (restOfLine text).1 ++ (restOfLine text).2 = text :=
    List.takeWhile_append_dropWhile
  have hread := SplitsInto.cons_glued (restOfLine text).1 (.nil (restOfLine text).2)
  rwa [hsplit] at hread

/-- A description stands behind blanks that are skipped. -/
theorem splitsInto_description? {text description rest : Text}
    (h : description? text = some (description, rest)) :
    SplitsInto text [description] rest := by
  induction text with
  | nil => cases h
  | cons c text ih =>
      rw [description?] at h
      split at h
      · -- the first character is a blank in front of the description
        rename_i found hfound
        rw [Option.ite_none_right_eq_some] at hfound
        obtain rfl := Option.some.inj h
        have hblank : ∀ d ∈ [c], isBlank d = true := by simpa using hfound.1
        exact (ih hfound.2).blanks_append hblank
      · rw [Option.ite_none_left_eq_some] at h
        obtain ⟨rfl, rfl⟩ := Prod.mk.inj (Option.some.inj h.2)
        exact splitsInto_restOfLine (c :: text)

theorem splitsInto_descriptionPart (text : Text) :
    SplitsInto text (descriptionPart text).1.toList (descriptionPart text).2 := by
  cases text with
  | nil => exact .nil []
  | cons c text =>
      rw [descriptionPart]
      split
      · rename_i description rest hread
        rw [Option.ite_none_right_eq_some] at hread
        have hblank : ∀ d ∈ [c], isBlank d = true := by simpa using hread.1
        exact (splitsInto_description? hread.2).blanks_append hblank
      · exact .nil (c :: text)

/-- There is a description on every line that is not empty, and it reaches the end. -/
theorem exists_description? {text : Text} (hne : text ≠ []) (hfeed : '\n' ∉ text) :
    ∃ description, description? text = some (description, []) := by
  induction text with
  | nil => exact absurd rfl hne
  | cons c text ih =>
      have hc : c ≠ '\n' := fun heq => hfeed (heq ▸ List.mem_cons_self)
      rw [description?]
      split
      · rename_i found hfound
        rw [Option.ite_none_right_eq_some] at hfound
        obtain ⟨-, hfound⟩ := hfound
        have htext : text ≠ [] := by
          rintro rfl
          cases hfound
        obtain ⟨description, hread⟩ := ih htext (fun hmem => hfeed (List.mem_cons_of_mem c hmem))
        exact ⟨description, hfound.symm.trans hread⟩
      · rw [if_neg hc, restOfLine_eq_self hfeed]
        exact ⟨c :: text, rfl⟩

/-- The two ways in which a tag is read to its end: a description behind blanks, or all that is
left of the line. -/
inductive Closes : Text → Option Text → Text → Prop
  | described (text : Text) : Closes text (descriptionPart text).1 (descriptionPart text).2
  | whole (text : Text) :
      Closes text (some (restOfLine (Text.skipBlanks text)).1)
        (restOfLine (Text.skipBlanks text)).2

namespace Closes

variable {text rest : Text} {description : Option Text}

theorem splitsInto (h : Closes text description rest) :
    SplitsInto text description.toList rest := by
  cases h with
  | described => exact splitsInto_descriptionPart text
  | whole =>
      obtain ⟨blanks, htext, hblanks⟩ := Text.eq_blanks_append_skipBlanks text
      have hread := (splitsInto_restOfLine (Text.skipBlanks text)).blanks_append hblanks
      rwa [← htext] at hread

/-- What is left behind the end, if anything, is a text that no blank separates. -/
theorem rest_eq_nil_or (h : Closes text description rest) (hfeed : '\n' ∉ text)
    (hlast : ∀ c ∈ text.getLast?, isBlank c = false) :
    rest = [] ∨ description = none ∧ ∀ c ∈ rest.head?, isBlank c = false := by
  cases h with
  | described =>
      cases text with
      | nil => exact .inl rfl
      | cons c text =>
          by_cases hc : isBlank c = true
          · -- the blank is not the last character, so a description is read behind it
            have hne : text ≠ [] := by
              rintro rfl
              rw [hlast c rfl] at hc
              cases hc
            obtain ⟨description, hread⟩ :=
              exists_description? hne fun hmem => hfeed (List.mem_cons_of_mem c hmem)
            rw [descriptionPart, if_pos hc, hread]
            exact .inl rfl
          · rw [descriptionPart, if_neg hc]
            exact .inr ⟨rfl, fun d hd => by
              obtain rfl : c = d := by simpa using hd
              exact Bool.not_eq_true _ ▸ hc⟩
  | whole =>
      have hskip : '\n' ∉ Text.skipBlanks text := fun hmem =>
        hfeed ((List.dropWhile_suffix isBlank).subset hmem)
      rw [restOfLine_eq_self hskip]
      exact .inl rfl

end Closes

/-! ## The rules -/

/-- How a tag was read: from its front on a line, then to its end. -/
def ReadFrom (line : Text) (tag : Tag) (rest : Text) : Prop :=
  ∃ behind, SplitsInto line tag.front behind ∧ Closes behind tag.remark rest

variable {line rest : Text} {tag : Tag}

theorem splitsInto_parentPart (text : Text) :
    SplitsInto text (extension (parentPart text).1) (parentPart text).2 := by
  obtain ⟨before, htext, hbefore⟩ := Text.eq_blanks_append_skipBlanks text
  rw [parentPart]
  split
  · rename_i rest hcolon
    obtain ⟨after, hrest, hafter⟩ := Text.eq_blanks_append_skipBlanks rest
    split
    · exact .nil text
    · have hsplit := List.takeWhile_append_dropWhile (p := (!isBlank ·)) (l := Text.skipBlanks rest)
      have hparent := SplitsInto.cons hafter
        ((Text.skipBlanks rest).takeWhile (!isBlank ·))
        (.nil ((Text.skipBlanks rest).dropWhile (!isBlank ·)))
      rw [hsplit, ← hrest] at hparent
      rw [htext, hcolon]
      exact .cons hbefore [':'] hparent
  · exact .nil text

theorem readFrom_declaration? (isEnum : Bool)
    (h : declaration? (declarationKeyword isEnum) isEnum line = some (tag, rest)) :
    ReadFrom line tag rest := by
  obtain ⟨blanks, name, behind, rfl, hblanks, -, -, rfl, rfl⟩ := exists_of_declaration? h
  exact ⟨(parentPart behind).2,
    .cons_glued _ (.cons hblanks name (splitsInto_parentPart behind)), .whole _⟩

theorem readFrom_field? (h : field? line = some (tag, rest)) : ReadFrom line tag rest := by
  obtain ⟨visibility, blanks, behind, body, rfl, hblanks, hvisible, hbody⟩ := exists_of_field? h
  obtain ⟨name, inner, expr, after, rfl, -, hinner, rfl, rfl⟩ := exists_of_fieldBody? hbody
  have hsplit : SplitsInto (name ++ (inner ++ (expr ++ after))) [name, expr] after :=
    .cons_glued name (.cons hinner expr (.nil after))
  rcases hvisible with ⟨rfl, rfl⟩ | ⟨word, more, rfl, rfl, hmore⟩
  · exact ⟨after, .cons_glued _ (hsplit.blanks_append hblanks), .whole after⟩
  · exact ⟨after, .cons_glued _ (.cons hblanks word (hsplit.blanks_append hmore)), .whole after⟩

theorem readFrom_type? (h : type? line = some (tag, rest)) : ReadFrom line tag rest := by
  obtain ⟨blanks, expr, behind, rfl, hblanks, rfl, rfl⟩ := exists_of_type? h
  exact ⟨behind, .cons_glued _ (.cons hblanks expr (.nil behind)), .described behind⟩

theorem readFrom_param? (h : param? line = some (tag, rest)) : ReadFrom line tag rest := by
  obtain ⟨blanks, name, more, expr, behind, rfl, hblanks, hmore, rfl, rfl⟩ := exists_of_param? h
  exact ⟨behind, .cons_glued _ (.cons hblanks name (.cons hmore expr (.nil behind))),
    .described behind⟩

theorem splitsInto_resultName (text : Text) :
    SplitsInto text (resultName text).1.toList (resultName text).2 := by
  rcases resultName_cases text with hnone | ⟨blanks, name, behind, rfl, hblanks, -, hsome⟩
  · rw [hnone]
    exact .nil text
  · rw [hsome]
    exact .cons hblanks name (.nil behind)

theorem readFrom_result? (h : result? line = some (tag, rest)) : ReadFrom line tag rest := by
  obtain ⟨blanks, expr, behind, rfl, hblanks, rfl, rfl⟩ := exists_of_result? h
  exact ⟨(resultName behind).2,
    .cons_glued _ (.cons hblanks expr (splitsInto_resultName behind)), .described _⟩

theorem readFrom_read? (h : read? line = some (tag, rest)) (hgroups : tag.HasGroups) :
    ReadFrom line tag rest := by
  rcases read?_cases h with h | h | h | h | h | h | h | h
  · exact readFrom_declaration? false h
  · exact readFrom_declaration? true h
  · exact readFrom_field? h
  · exact readFrom_type? h
  · exact readFrom_param? h
  · exact readFrom_result? h
  · exact absurd h hgroups.1
  · exact absurd h hgroups.2

/-! ## All tags -/

/-- **All that is read of a line stands in its tag**: the line splits into the parts of the tag and
what is left. On a trimmed line something is left only where the tag says nothing about what it
names, and then it touches the last part. -/
theorem splitsInto_of_read? (hread : read? line = some (tag, rest)) (hgroups : tag.HasGroups)
    (htrim : Text.trim line = line) (hfeed : '\n' ∉ line) :
    SplitsInto line tag.parts rest ∧
      (rest = [] ∨ tag.remark = none ∧ ∀ c ∈ rest.head?, isBlank c = false) := by
  obtain ⟨behind, hfront, hcloses⟩ := readFrom_read? hread hgroups
  refine ⟨hfront.append hcloses.splitsInto, hcloses.rest_eq_nil_or ?_ ?_⟩
  · exact fun hmem => hfeed (hfront.isSuffix.subset hmem)
  · intro c hc
    obtain ⟨taken, htaken⟩ := hfront.isSuffix
    refine (Text.trim_eq_self_iff.mp htrim).2 c ?_
    rw [← htaken, List.getLast?_append, Option.mem_def.mp hc]
    rfl

/-- Of two names for a returned value, joined by a comma, the first is read. -/
theorem splitsInto_namesWithComma :
    read? "---@return number a, b".toList =
        some (.result "number".toList (some "a".toList) none, ", b".toList) ∧
      SplitsInto "---@return number a, b".toList
        ["---@return".toList, "number".toList, "a".toList] ", b".toList := by
  have hread : read? "---@return number a, b".toList =
      some (.result "number".toList (some "a".toList) none, ", b".toList) := by decide +kernel
  exact ⟨hread, (splitsInto_of_read? hread ⟨by decide, by decide⟩ (by decide) (by decide)).1⟩

/-- Of two types joined by a comma the first is read, and the line counts as a tag of a type
though the second is lost. -/
theorem read?_typesWithComma :
    isDocComment "---@type number,string".toList = true ∧
      Text.trim "---@type number,string".toList = "---@type number,string".toList ∧
      read? "---@type number,string".toList =
        some (.type "number".toList none, ",string".toList) := by
  decide +kernel

end LuaReference.Tag
