import LuaReference.Proofs.Doc.NormalForm
import LuaReference.Proofs.Tag.RuleReading
import LuaReference.Tag.Block

set_option autoImplicit false

/-! # The names in a comment block

The tags of a block name classes, fields and returned values. What is read as such a name is one: a
word, or for a class a text without blanks (`wellNamed_of_read?`). Plain text behind a tag changes
descriptions only, so the names that a block keeps are those of its tags (`wellNamed_ofLines`).
-/

namespace LuaReference

namespace Tag

/-- A tag whose names can be names of what it documents. -/
def WellNamed : Tag → Prop
  | .declaration _ name _ _ => IsTrimmed name
  | .field _ name _ _ => Text.IsWord name
  | .result _ name _ => ∀ word ∈ name, Text.IsWord word
  | .type _ _ | .param _ _ _ | .nonStatic | .other => True

variable {line rest : Text} {tag : Tag}

theorem wellNamed_declaration? {keyword : Text} {isEnum : Bool}
    (h : declaration? keyword isEnum line = some (tag, rest)) : tag.WellNamed := by
  obtain ⟨_, name, _, -, -, hne, hname, rfl, -⟩ := exists_of_declaration? h
  refine isTrimmed_of_not_blank hne fun c hc => ?_
  have hchar := hname c hc
  rw [isNameChar, Bool.and_eq_true, Bool.not_eq_true'] at hchar
  exact hchar.1

theorem wellNamed_field? (h : field? line = some (tag, rest)) : tag.WellNamed := by
  obtain ⟨_, _, _, _, -, -, -, hbody⟩ := exists_of_field? h
  obtain ⟨name, _, _, _, -, hname, -, rfl, -⟩ := exists_of_fieldBody? hbody
  exact hname

theorem wellNamed_type? (h : type? line = some (tag, rest)) : tag.WellNamed := by
  obtain ⟨_, _, _, -, -, rfl, -⟩ := exists_of_type? h
  trivial

theorem wellNamed_param? (h : param? line = some (tag, rest)) : tag.WellNamed := by
  obtain ⟨_, _, _, _, _, -, -, -, rfl, -⟩ := exists_of_param? h
  trivial

theorem wellNamed_result? (h : result? line = some (tag, rest)) : tag.WellNamed := by
  obtain ⟨_, _, behind, -, -, rfl, -⟩ := exists_of_result? h
  intro word hword
  rcases resultName_cases behind with hnone | ⟨_, name, _, -, -, hname, hsome⟩
  · rw [hnone] at hword
    cases hword
  · rw [hsome] at hword
    exact Option.some.inj hword ▸ hname

/-- **What is read as a tag is well named.** -/
theorem wellNamed_of_read? (h : read? line = some (tag, rest)) : tag.WellNamed := by
  rcases read?_cases h with h | h | h | h | h | h | rfl | rfl
  · exact wellNamed_declaration? h
  · exact wellNamed_declaration? h
  · exact wellNamed_field? h
  · exact wellNamed_type? h
  · exact wellNamed_param? h
  · exact wellNamed_result? h
  · trivial
  · trivial

end Tag

namespace Block

/-- A block whose names can be names of what it documents. -/
structure WellNamed (block : Block) : Prop where
  classDecl : ∀ decl ∈ block.classDecl, IsTrimmed decl.name
  fields : ∀ field ∈ block.fields, Text.IsWord field.name
  returns : ∀ entry ∈ block.returns, ∀ name ∈ entry.name, Text.IsWord name

/-- What holds of an element and of the changed last one holds of all. -/
theorem forall_mem_mapLast {α : Type} {holds : α → Prop} {change : α → α} {xs : List α}
    (h : ∀ x ∈ xs, holds x) (hchange : ∀ x, holds x → holds (change x)) :
    ∀ x ∈ mapLast change xs, holds x := by
  induction xs with
  | nil => exact h
  | cons first rest ih =>
      cases rest with
      | nil =>
          rw [mapLast, List.forall_mem_singleton]
          exact hchange first (h first List.mem_cons_self)
      | cons second rest =>
          rw [mapLast, List.forall_mem_cons]
          · exact ⟨h first List.mem_cons_self, ih fun x hx => h x (List.mem_cons_of_mem _ hx)⟩
          · simp

variable {block : Block}

theorem WellNamed.append (h : block.WellNamed) (target : Target) (line : Text) :
    (block.append target line).WellNamed := by
  cases target with
  | field => exact ⟨h.classDecl, forall_mem_mapLast h.fields fun _ hf => hf, h.returns⟩
  | param => exact ⟨h.classDecl, h.fields, h.returns⟩
  | general => exact ⟨h.classDecl, h.fields, h.returns⟩

theorem WellNamed.addTag (h : block.WellNamed) {tag : Tag} (ht : tag.WellNamed) :
    (block.addTag tag).1.WellNamed := by
  cases tag with
  | declaration isEnum name parent text =>
      have hdecl : { block with classDecl := some ⟨name, parent, isEnum⟩ }.WellNamed :=
        ⟨fun decl hd => Option.some.inj hd ▸ ht, h.fields, h.returns⟩
      rw [Block.addTag]
      split
      · exact hdecl
      · exact hdecl.append .general _
  | field visibility name type text =>
      refine ⟨h.classDecl, ?_, h.returns⟩
      simpa [Block.addTag, or_imp, forall_and] using ⟨h.fields, ht⟩
  | result type name description =>
      refine ⟨h.classDecl, h.fields, ?_⟩
      simpa [Block.addTag, or_imp, forall_and] using ⟨h.returns, ht⟩
  | type type description => exact ⟨h.classDecl, h.fields, h.returns⟩
  | param name type description => exact ⟨h.classDecl, h.fields, h.returns⟩
  | nonStatic => exact ⟨h.classDecl, h.fields, h.returns⟩
  | other => exact h

theorem WellNamed.addLine {state : Block × Target} (h : state.1.WellNamed) (line : Text) :
    (Block.addLine state line).1.WellNamed := by
  rw [Block.addLine]
  split
  · rename_i tag htag
    obtain ⟨⟨read, rest⟩, hread, rfl⟩ := Option.map_eq_some_iff.mp htag
    exact h.addTag (Tag.wellNamed_of_read? hread)
  · split
    · exact h
    · exact h.append _ _

/-- **What comment lines say is well named.** -/
theorem wellNamed_ofLines (lines : List Text) : (ofLines lines).WellNamed := by
  have hfold (state : Block × Target) (h : state.1.WellNamed) :
      (lines.foldl Block.addLine state).1.WellNamed := by
    induction lines generalizing state with
    | nil => exact h
    | cons line lines ih => exact ih _ (h.addLine line)
  exact hfold ({}, .general) ⟨by simp, by simp, by simp⟩

end Block

end LuaReference
