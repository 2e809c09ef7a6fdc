import LuaReference.Proofs.Tag.LineReading
import LuaReference.Proofs.Tag.WrittenBlock

set_option autoImplicit false

/-! # The parts of a block

A comment line is one of three kinds (`line_cases`): it holds a tag, it is plain text, or it is
empty behind its mark. A tag adds at most one thing to each part of a block (`addTag_eq`), plain text is added to
what stands open (`addLine_of_plain`), and a description that is continued has all its texts in
their order (`describeLines_concat`).
-/

namespace LuaReference

/-! ## Joined texts -/

/-- A text alone, unless it is empty. -/
def Text.present (text : Text) : List Text := [text].filter (· ≠ [])

theorem Text.present_eq_singleton {text : Text} (h : text ≠ []) : Text.present text = [text] := by
  simp [Text.present, h]

theorem Text.ne_nil_of_mem_present {text part : Text} (h : part ∈ Text.present text) :
    part ≠ [] := by
  simpa using (List.mem_filter.mp h).2

/-- Continuing a description puts one more text behind those that were joined. -/
theorem describeLines_concat {texts : List Text} (h : ∀ text ∈ texts, text ≠ []) {text : Text}
    (hne : text ≠ []) :
    describeLines (texts ++ [text]) = some (continueDescription (describeLines texts) text) := by
  have hall : ∀ part ∈ texts ++ [text], part ≠ [] := by
    intro part hpart
    rcases List.mem_append.mp hpart with hpart | hpart
    · exact h part hpart
    · exact List.mem_singleton.mp hpart ▸ hne
  rw [← foldl_continueDescription_none hall, ← foldl_continueDescription_none h,
    List.foldl_append, List.foldl_cons, List.foldl_nil]

namespace Tag

/-! ## Descriptions of tags -/

theorem description?_ne_nil {text description rest : Text}
    (h : description? text = some (description, rest)) : description ≠ [] := by
  induction text with
  | nil => cases h
  | cons c text ih =>
      rw [description?] at h
      split at h
      · rename_i found hfound
        obtain rfl := Option.some.inj h
        exact ih (Option.ite_none_right_eq_some.mp hfound).2
      · obtain ⟨hc, h⟩ := Option.ite_none_left_eq_some.mp h
        obtain ⟨rfl, rfl⟩ := Prod.mk.inj (Option.some.inj h)
        simp [hc]

theorem descriptionPart_ne_nil (text : Text) : (descriptionPart text).1 ≠ some [] := by
  cases text with
  | nil => simp [descriptionPart]
  | cons c text =>
      rw [descriptionPart]
      split
      · rename_i description rest hread
        intro hnil
        exact description?_ne_nil (Option.ite_none_right_eq_some.mp hread).2 (Option.some.inj hnil)
      · simp

/-- The description of a parameter is absent or has a text. -/
theorem param_description_ne_nil {line name expr : Text} {description : Option Text}
    (h : ofLine? line = some (.param name expr description)) : description ≠ some [] := by
  obtain ⟨⟨tag, rest⟩, hread, htag⟩ := Option.map_eq_some_iff.mp h
  obtain rfl : tag = .param name expr description := htag
  rcases read?_cases hread with h | h | h | h | h | h | h | h
  · obtain ⟨_, _, _, -, -, -, -, htag, -⟩ := exists_of_declaration? h
    cases htag
  · obtain ⟨_, _, _, -, -, -, -, htag, -⟩ := exists_of_declaration? h
    cases htag
  · obtain ⟨_, _, _, _, -, -, -, hbody⟩ := exists_of_field? h
    obtain ⟨_, _, _, _, -, -, -, htag, -⟩ := exists_of_fieldBody? hbody
    cases htag
  · obtain ⟨_, _, _, -, -, htag, -⟩ := exists_of_type? h
    cases htag
  · obtain ⟨_, _, _, _, behind, -, -, -, htag, -⟩ := exists_of_param? h
    rw [(Tag.param.inj htag).2.2]
    exact descriptionPart_ne_nil behind
  · obtain ⟨_, _, _, -, -, htag, -⟩ := exists_of_result? h
    cases htag
  · cases h
  · cases h

/-- What plain text behind a tag continues. -/
@[simp] def target : Tag → Block.Target
  | .field _ _ _ _ => .field
  | .param _ _ _ => .param
  | .declaration _ _ _ _ | .type _ _ | .result _ _ _ | .nonStatic | .other => .general

/-- The class that a tag declares. -/
@[simp] def classDecl? : Tag → Option ClassDecl
  | .declaration isEnum name parent _ => some ⟨name, parent, isEnum⟩
  | _ => none

/-- The type that a tag declares. -/
@[simp] def typeDecl? : Tag → Option TypeDecl
  | .type expr description => some ⟨expr, description⟩
  | _ => none

/-- The returned value that a tag is about. -/
@[simp] def returnEntry? : Tag → Option ReturnEntry
  | .result expr name description => some ⟨expr, name, description⟩
  | _ => none

/-- The texts of a tag that are part of the general description. -/
@[simp] def generalTexts : Tag → List Text
  | .declaration _ _ _ text => Text.present (Text.trim text)
  | _ => []

theorem ne_nil_of_mem_generalTexts {tag : Tag} {text : Text} (h : text ∈ tag.generalTexts) :
    text ≠ [] := by
  cases tag with
  | declaration => exact Text.ne_nil_of_mem_present h
  | _ => cases h

/-- The field that a tag and the texts behind its line document. -/
@[simp] def fieldDoc? (more : List Text) : Tag → Option FieldDoc
  | .field _ name expr text =>
      some ⟨name, expr, false, describeLines (Text.present text ++ more)⟩
  | _ => none

/-- The entry on a parameter that a tag and the texts behind its line make. -/
@[simp] def paramEntry? (more : List Text) : Tag → Option ParamEntry
  | .param name expr description =>
      some ⟨name, expr, describeLines (description.toList ++ more)⟩
  | _ => none

end Tag

namespace Block

/-! ## Kinds of lines -/

/-- A line of plain text: no tag, and something behind the mark. -/
def IsPlain (line : Text) : Prop := Tag.ofLine? line = none ∧ Tag.commentText line ≠ []

instance : DecidablePred IsPlain := fun line =>
  inferInstanceAs (Decidable (Tag.ofLine? line = none ∧ Tag.commentText line ≠ []))

section Lines

variable {line : Text}

theorem not_isPlain_of_tag {tag : Tag} (h : Tag.ofLine? line = some tag) : ¬ IsPlain line := by
  rintro ⟨hnone, -⟩
  rw [h] at hnone
  cases hnone

/-- A line holds a tag, has nothing behind its mark, or is plain. -/
theorem line_cases (line : Text) :
    (∃ tag, Tag.ofLine? line = some tag) ∨
      (Tag.ofLine? line = none ∧ Tag.commentText line = []) ∨ IsPlain line := by
  cases htag : Tag.ofLine? line with
  | some tag => exact .inl ⟨tag, rfl⟩
  | none =>
      by_cases hblank : Tag.commentText line = []
      · exact .inr (.inl ⟨rfl, hblank⟩)
      · exact .inr (.inr ⟨htag, hblank⟩)

theorem addLine_of_blank (h : Tag.ofLine? line = none ∧ Tag.commentText line = [])
    (state : Block × Target) : addLine state line = (state.1, .general) := by
  rw [addLine, h.1, h.2]

theorem addLine_of_plain (h : IsPlain line) (state : Block × Target) :
    addLine state line = (state.1.append state.2 (Tag.commentText line), state.2) := by
  obtain ⟨htag, hne⟩ := h
  rw [addLine, htag]
  cases htext : Tag.commentText line with
  | nil => exact absurd htext hne
  | cons c text => rfl

end Lines

/-! ## One more line -/

/-- What a tag adds to each part of a block. -/
theorem addTag_eq (block : Block) (tag : Tag) :
    block.addTag tag =
      ({ description := tag.generalTexts.foldl (fun d text => some (continueDescription d text))
          block.description
         classDecl := tag.classDecl?.or block.classDecl
         typeDecl := tag.typeDecl?.or block.typeDecl
         fields := block.fields ++ (tag.fieldDoc? []).toList
         params := block.params ++ (tag.paramEntry? []).toList
         returns := block.returns ++ tag.returnEntry?.toList
         nonStatic := block.nonStatic || tag = .nonStatic }, tag.target) := by
  obtain ⟨description, classDecl, typeDecl, fields, params, returns, nonStatic⟩ := block
  cases tag with
  | declaration isEnum name parent text =>
      simp only [addTag]
      split
      · rename_i hblank
        simp [hblank, Text.present]
      · rename_i hne
        simp [Text.present_eq_singleton hne, appendGeneral]
  | field visibility name expr text =>
      cases text <;> simp [addTag, Text.present, describeLines, Text.join]
  | param name expr description =>
      cases description <;> simp [addTag, describeLines, Text.join]
  | _ => simp [addTag]

theorem mapLast_append {α : Type} (change : α → α) (front : List α) {behind : List α}
    (h : behind ≠ []) : mapLast change (front ++ behind) = front ++ mapLast change behind := by
  induction front with
  | nil => rfl
  | cons first front ih =>
      rw [List.cons_append, mapLast, ih, List.cons_append]
      simp [h]

theorem mapLast_concat {α : Type} (change : α → α) (front : List α) (last : α) :
    mapLast change (front ++ [last]) = front ++ [change last] :=
  mapLast_append change front (List.cons_ne_nil last [])

theorem mapLast_ne_nil {α : Type} (change : α → α) {list : List α} (h : list ≠ []) :
    mapLast change list ≠ [] := by
  match list, h with
  | [_], _ => exact List.cons_ne_nil _ _
  | _ :: _ :: _, _ => exact List.cons_ne_nil _ _

/-! ## Entries that stand open -/

/-- What the entries of one kind have in common: no tag of another kind makes one, and a text that
stands behind one is added to its description. -/
structure IsEntry {α : Type} (kind : Target) (given? : List Text → Tag → Option α)
    (addLine : α → Text → α) : Prop where
  kind_ne : kind ≠ .general
  eq_none {tag : Tag} (h : tag.target ≠ kind) (more : List Text) : given? more tag = none
  eq_some {line : Text} {tag : Tag} (h : Tag.ofLine? line = some tag) (hkind : tag.target = kind)
    {more : List Text} (hmore : ∀ text ∈ more, text ≠ []) {text : Text} (hne : text ≠ []) :
    ∃ entry, given? more tag = some entry ∧
      given? (more ++ [text]) tag = some (addLine entry text)

theorem fieldDoc?_isEntry : IsEntry .field Tag.fieldDoc? FieldDoc.addLine where
  kind_ne := by decide
  eq_none := by
    intro tag h more
    cases tag with
    | field => exact absurd rfl h
    | _ => rfl
  eq_some := by
    intro line tag h hkind more hmore text hne
    cases tag with
    | field visibility name expr first =>
        have hall : ∀ part ∈ Text.present first ++ more, part ≠ [] := by
          intro part hpart
          rcases List.mem_append.mp hpart with hpart | hpart
          · exact Text.ne_nil_of_mem_present hpart
          · exact hmore part hpart
        refine ⟨_, rfl, ?_⟩
        rw [Tag.fieldDoc?, ← List.append_assoc, describeLines_concat hall hne]
        rfl
    | _ => cases hkind

theorem paramEntry?_isEntry : IsEntry .param Tag.paramEntry? ParamEntry.addLine where
  kind_ne := by decide
  eq_none := by
    intro tag h more
    cases tag with
    | param => exact absurd rfl h
    | _ => rfl
  eq_some := by
    intro line tag h hkind more hmore text hne
    cases tag with
    | param name expr description =>
        have hall : ∀ part ∈ description.toList ++ more, part ≠ [] := by
          intro part hpart
          rcases List.mem_append.mp hpart with hpart | hpart
          · rintro rfl
            exact Tag.param_description_ne_nil h (Option.mem_toList.mp hpart)
          · exact hmore part hpart
        refine ⟨_, rfl, ?_⟩
        rw [Tag.paramEntry?, ← List.append_assoc, describeLines_concat hall hne]
        rfl
    | _ => cases hkind

end Block

end LuaReference
