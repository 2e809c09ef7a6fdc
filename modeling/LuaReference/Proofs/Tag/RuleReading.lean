import LuaReference.Proofs.Source.PathReading
import LuaReference.Proofs.Tag.TypeReading

set_option autoImplicit false

/-! # What the rules read

For each rule of tags, the shape of every line that it reads: the keyword, and behind it the names
and the type expression of the tag with the blanks in front of them. What is said about tags that
were read follows from these shapes, whatever it is about the names or the text of the line.
-/

namespace LuaReference.Tag

/-- Of two readings one gives the result. -/
theorem eq_some_of_orElse {α : Type} {first second : Option α} {value : α}
    (h : (first <|> second) = some value) : first = some value ∨ second = some value := by
  cases first with
  | none => exact .inr h
  | some other => exact .inl h

variable {line rest : Text} {tag : Tag}

theorem exists_of_declaration? {keyword : Text} {isEnum : Bool}
    (h : declaration? keyword isEnum line = some (tag, rest)) :
    ∃ blanks name behind : Text, line = keyword ++ (blanks ++ (name ++ behind)) ∧
      (∀ c ∈ blanks, isBlank c = true) ∧ name ≠ [] ∧ (∀ c ∈ name, isNameChar c = true) ∧
        tag = .declaration isEnum name (parentPart behind).1
          (restOfLine (Text.skipBlanks (parentPart behind).2)).1 ∧
            rest = (restOfLine (Text.skipBlanks (parentPart behind).2)).2 := by
  rw [declaration?] at h
  obtain ⟨body, hbody, h⟩ := Option.bind_eq_some_iff.mp h
  split at h
  · cases h
  · rename_i name hname
    obtain ⟨rfl, rfl⟩ := Prod.mk.inj (Option.some.inj h)
    obtain ⟨blanks, rfl, -, hblanks⟩ := eq_append_of_afterKeyword? hbody
    refine ⟨blanks, body.takeWhile isNameChar, body.dropWhile isNameChar, ?_, hblanks, hname,
      fun c hc => List.mem_takeWhile_imp hc, rfl, rfl⟩
    rw [List.takeWhile_append_dropWhile]

theorem exists_of_fieldBody? {visibility : Option Text} {body : Text}
    (h : fieldBody? visibility body = some (tag, rest)) :
    ∃ name blanks expr behind : Text, body = name ++ (blanks ++ (expr ++ behind)) ∧
      Text.IsWord name ∧ (∀ c ∈ blanks, isBlank c = true) ∧
        tag = .field visibility name expr (restOfLine (Text.skipBlanks behind)).1 ∧
          rest = (restOfLine (Text.skipBlanks behind)).2 := by
  rw [fieldBody?] at h
  obtain ⟨⟨name, afterName⟩, hname, h⟩ := Option.bind_eq_some_iff.mp h
  obtain ⟨atType, hatType, h⟩ := Option.bind_eq_some_iff.mp h
  obtain ⟨⟨expr, behind⟩, hexpr, h⟩ := Option.bind_eq_some_iff.mp h
  obtain ⟨rfl, rfl⟩ := Prod.mk.inj (Option.some.inj h)
  obtain ⟨rfl, hword⟩ := Text.eq_append_of_word? hname
  obtain ⟨blanks, rfl, -, hblanks⟩ := Text.eq_append_of_afterBlanks? hatType
  obtain ⟨rfl, -⟩ := TypeExpr.isTypeExpr_of_read? hexpr
  exact ⟨name, blanks, expr, behind, rfl, hword, hblanks, rfl, rfl⟩

/-- A field is read from its name on, behind the blanks that follow the keyword or behind a
visibility and the blanks that follow it. -/
theorem exists_of_field? (h : field? line = some (tag, rest)) :
    ∃ (visibility : Option Text) (blanks behind body : Text),
      line = "---@field".toList ++ (blanks ++ behind) ∧ (∀ c ∈ blanks, isBlank c = true) ∧
        (visibility = none ∧ behind = body ∨
          ∃ word more, visibility = some word ∧ behind = word ++ (more ++ body) ∧
            ∀ c ∈ more, isBlank c = true) ∧
          fieldBody? visibility body = some (tag, rest) := by
  rw [field?] at h
  obtain ⟨behind, hbehind, h⟩ := Option.bind_eq_some_iff.mp h
  obtain ⟨blanks, hline, -, hblanks⟩ := eq_append_of_afterKeyword? hbehind
  rcases eq_some_of_orElse h with h | h
  · obtain ⟨word, -, h⟩ := List.exists_of_findSome?_eq_some h
    obtain ⟨body, hbody, h⟩ := Option.bind_eq_some_iff.mp h
    obtain ⟨more, hmore, -, hall⟩ := eq_append_of_afterKeyword? hbody
    exact ⟨some word, blanks, behind, body, hline, hblanks, .inr ⟨word, more, rfl, hmore, hall⟩, h⟩
  · exact ⟨none, blanks, behind, behind, hline, hblanks, .inl ⟨rfl, rfl⟩, h⟩

theorem exists_of_type? (h : type? line = some (tag, rest)) :
    ∃ blanks expr behind : Text, line = "---@type".toList ++ (blanks ++ (expr ++ behind)) ∧
      (∀ c ∈ blanks, isBlank c = true) ∧ tag = .type expr (descriptionPart behind).1 ∧
        rest = (descriptionPart behind).2 := by
  rw [type?] at h
  obtain ⟨body, hbody, h⟩ := Option.bind_eq_some_iff.mp h
  obtain ⟨⟨expr, behind⟩, hexpr, h⟩ := Option.bind_eq_some_iff.mp h
  obtain ⟨rfl, rfl⟩ := Prod.mk.inj (Option.some.inj h)
  obtain ⟨blanks, rfl, -, hblanks⟩ := eq_append_of_afterKeyword? hbody
  obtain ⟨rfl, -⟩ := TypeExpr.isTypeExpr_of_read? hexpr
  exact ⟨blanks, expr, behind, rfl, hblanks, rfl, rfl⟩

theorem eq_append_of_paramName? {text name behind : Text}
    (h : paramName? text = some (name, behind)) : text = name ++ behind := by
  rcases eq_some_of_orElse h with h | h
  · exact (Text.eq_append_of_word? h).1
  · obtain ⟨behind, hdots, heq⟩ := Option.map_eq_some_iff.mp h
    obtain ⟨rfl, rfl⟩ := Prod.mk.inj heq
    exact (List.isPrefixOf?_eq_some_iff_append_eq.mp hdots).symm

theorem exists_of_param? (h : param? line = some (tag, rest)) :
    ∃ blanks name more expr behind : Text,
      line = "---@param".toList ++ (blanks ++ (name ++ (more ++ (expr ++ behind)))) ∧
        (∀ c ∈ blanks, isBlank c = true) ∧ (∀ c ∈ more, isBlank c = true) ∧
          tag = .param name expr (descriptionPart behind).1 ∧
            rest = (descriptionPart behind).2 := by
  rw [param?] at h
  obtain ⟨body, hbody, h⟩ := Option.bind_eq_some_iff.mp h
  obtain ⟨⟨name, afterName⟩, hname, h⟩ := Option.bind_eq_some_iff.mp h
  obtain ⟨atType, hatType, h⟩ := Option.bind_eq_some_iff.mp h
  obtain ⟨⟨expr, behind⟩, hexpr, h⟩ := Option.bind_eq_some_iff.mp h
  obtain ⟨rfl, rfl⟩ := Prod.mk.inj (Option.some.inj h)
  obtain ⟨blanks, rfl, -, hblanks⟩ := eq_append_of_afterKeyword? hbody
  obtain rfl := eq_append_of_paramName? hname
  obtain ⟨more, rfl, -, hmore⟩ := Text.eq_append_of_afterBlanks? hatType
  obtain ⟨rfl, -⟩ := TypeExpr.isTypeExpr_of_read? hexpr
  exact ⟨blanks, name, more, expr, behind, rfl, hblanks, hmore, rfl, rfl⟩

/-- The name of a returned value is a word behind blanks, if there is one. -/
theorem resultName_cases (text : Text) :
    resultName text = (none, text) ∨
      ∃ blanks name behind : Text, text = blanks ++ (name ++ behind) ∧
        (∀ c ∈ blanks, isBlank c = true) ∧ Text.IsWord name ∧
          resultName text = (some name, behind) := by
  rw [resultName]
  split
  · rename_i name behind hname
    obtain ⟨atName, hatName, hread⟩ := Option.bind_eq_some_iff.mp hname
    obtain ⟨rfl, hword⟩ := Text.eq_append_of_word? hread
    obtain ⟨blanks, rfl, -, hblanks⟩ := Text.eq_append_of_afterBlanks? hatName
    exact .inr ⟨blanks, name, behind, rfl, hblanks, hword, rfl⟩
  · exact .inl rfl

theorem exists_of_result? (h : result? line = some (tag, rest)) :
    ∃ blanks expr behind : Text, line = "---@return".toList ++ (blanks ++ (expr ++ behind)) ∧
      (∀ c ∈ blanks, isBlank c = true) ∧
        tag = .result expr (resultName behind).1 (descriptionPart (resultName behind).2).1 ∧
          rest = (descriptionPart (resultName behind).2).2 := by
  rw [result?] at h
  obtain ⟨body, hbody, h⟩ := Option.bind_eq_some_iff.mp h
  obtain ⟨⟨expr, behind⟩, hexpr, h⟩ := Option.bind_eq_some_iff.mp h
  obtain ⟨rfl, rfl⟩ := Prod.mk.inj (Option.some.inj h)
  obtain ⟨blanks, rfl, -, hblanks⟩ := eq_append_of_afterKeyword? hbody
  obtain ⟨rfl, -⟩ := TypeExpr.isTypeExpr_of_read? hexpr
  exact ⟨blanks, expr, behind, rfl, hblanks, rfl, rfl⟩

theorem eq_nonStatic_of_nonStatic? (h : nonStatic? line = some (tag, rest)) : tag = .nonStatic := by
  rw [nonStatic?] at h
  obtain ⟨behind, -, h⟩ := Option.map_eq_some_iff.mp h
  exact (Prod.mk.inj h).1.symm

theorem eq_other_of_other? (h : other? line = some (tag, rest)) : tag = .other := by
  rw [other?] at h
  obtain ⟨behind, -, h⟩ := Option.bind_eq_some_iff.mp h
  split at h
  · split at h
    · exact (Prod.mk.inj (Option.some.inj h)).1.symm
    · cases h
  · cases h

/-- A tag was read by one of the rules. -/
theorem read?_cases (h : read? line = some (tag, rest)) :
    declaration? "---@class".toList false line = some (tag, rest) ∨
      declaration? "---@enum".toList true line = some (tag, rest) ∨
        field? line = some (tag, rest) ∨ type? line = some (tag, rest) ∨
          param? line = some (tag, rest) ∨ result? line = some (tag, rest) ∨
            tag = .nonStatic ∨ tag = .other := by
  refine (eq_some_of_orElse h).imp_right fun h => ?_
  refine (eq_some_of_orElse h).imp_right fun h => ?_
  refine (eq_some_of_orElse h).imp_right fun h => ?_
  refine (eq_some_of_orElse h).imp_right fun h => ?_
  refine (eq_some_of_orElse h).imp_right fun h => ?_
  refine (eq_some_of_orElse h).imp_right fun h => ?_
  exact (eq_some_of_orElse h).imp eq_nonStatic_of_nonStatic? eq_other_of_other?

end LuaReference.Tag
