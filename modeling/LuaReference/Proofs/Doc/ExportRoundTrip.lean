import LuaReference.Doc.Export
import LuaReference.Proofs.Json.RoundTrip

set_option autoImplicit false

/-! # Exported documentation is read back

Documentation as JSON holds no numbers, has each name of an object once and is nine levels deep, so
that it is read back from its text in every layout. Since JSON keeps all parts of the
documentation (`Doc.toJson_injective`), so does the text (`read_export`).
-/

namespace LuaReference

open Json (Fits)

/-! ## Documentation fits -/

section Fits

theorem fits_textMember (depth : Nat) (name : String) (value : Text) :
    Fits depth (textMember name value).2 := .string depth value

theorem fits_flagMember (depth : Nat) (name : String) (value : Bool) :
    Fits depth (flagMember name value).2 := .bool depth value

theorem fits_descriptionMember (depth : Nat) (description : Option Text) :
    Fits depth (descriptionMember description).2 := by
  cases description with
  | none => exact .null depth
  | some text => exact .string depth text

theorem fits_listMember {α : Type} {depth : Nat} {encode : α → Json}
    (h : ∀ value, Fits depth (encode value)) (name : String) (values : List α) :
    Fits (depth + 1) (listMember name encode values).2 := by
  refine .array fun item hitem => ?_
  obtain ⟨value, -, rfl⟩ := List.mem_map.mp hitem
  exact h value

/-- An object fits if its names, which do not depend on what is documented, are distinct. -/
theorem fits_object {depth : Nat} {members : List (Text × Json)} (names : List String)
    (hnames : members.map Prod.fst = names.map String.toList)
    (hdistinct : (names.map String.toList).Nodup) (h : ∀ m ∈ members, Fits depth m.2) :
    Fits (depth + 1) (.object members) :=
  .object (hnames ▸ hdistinct) h

theorem FieldDoc.fits_toJson (depth : Nat) (field : FieldDoc) :
    Fits (depth + 1) field.toJson := by
  refine fits_object ["name", "type", "isStatic", "description"] rfl (by decide) ?_
  simp only [List.forall_mem_cons]
  exact ⟨fits_textMember _ _ _, fits_textMember _ _ _, fits_flagMember _ _ _,
    fits_descriptionMember _ _, by simp⟩

theorem ParamDoc.fits_toJson (depth : Nat) (param : ParamDoc) :
    Fits (depth + 1) param.toJson := by
  refine fits_object ["name", "type", "optional", "description"] rfl (by decide) ?_
  simp only [List.forall_mem_cons]
  exact ⟨fits_textMember _ _ _, fits_textMember _ _ _, fits_flagMember _ _ _,
    fits_descriptionMember _ _, by simp⟩

theorem ReturnDoc.fits_toJson (depth : Nat) (value : ReturnDoc) :
    Fits (depth + 1) value.toJson := by
  refine fits_object ["type", "name", "description"] rfl (by decide) ?_
  simp only [List.forall_mem_cons]
  exact ⟨fits_textMember _ _ _, fits_textMember _ _ _, fits_descriptionMember _ _, by simp⟩

theorem FunctionDoc.fits_toJson (depth : Nat) (function : FunctionDoc) :
    Fits (depth + 3) function.toJson := by
  refine fits_object ["name", "isStatic", "description", "parameters", "returns"] rfl (by decide) ?_
  simp only [List.forall_mem_cons]
  exact ⟨fits_textMember _ _ _, fits_flagMember _ _ _, fits_descriptionMember _ _,
    fits_listMember (ParamDoc.fits_toJson depth) _ _,
    fits_listMember (ReturnDoc.fits_toJson depth) _ _, by simp⟩

theorem ClassDoc.fits_toJson (depth : Nat) (doc : ClassDoc) :
    Fits (depth + 5) doc.toJson := by
  refine fits_object ["name", "description", "fields", "functions"] rfl (by decide) ?_
  simp only [List.forall_mem_cons]
  exact ⟨fits_textMember _ _ _, fits_descriptionMember _ _,
    fits_listMember (FieldDoc.fits_toJson (depth + 2)) _ _,
    fits_listMember (FunctionDoc.fits_toJson depth) _ _, by simp⟩

theorem NamespaceDoc.fits_toJson (depth : Nat) (doc : NamespaceDoc) :
    Fits (depth + 7) doc.toJson := by
  refine fits_object ["name", "classes", "functions", "fields"] rfl (by decide) ?_
  simp only [List.forall_mem_cons]
  exact ⟨fits_textMember _ _ _, fits_listMember (ClassDoc.fits_toJson depth) _ _,
    fits_listMember (FunctionDoc.fits_toJson (depth + 2)) _ _,
    fits_listMember (FieldDoc.fits_toJson (depth + 4)) _ _, by simp⟩

theorem Doc.fits_toJson (depth : Nat) (doc : Doc) : Fits (depth + 9) doc.toJson := by
  refine fits_object ["namespaces"] rfl (by decide) ?_
  simp only [List.forall_mem_cons]
  exact ⟨fits_listMember (NamespaceDoc.fits_toJson depth) _ _, by simp⟩

/-- Documentation is not deeper than what is read. -/
theorem Doc.fits_depthLimit (doc : Doc) : Fits Json.depthLimit doc.toJson :=
  doc.fits_toJson 961

end Fits

/-! ## JSON keeps all parts -/

section Injective

theorem ofOption_injective : Function.Injective Json.ofOption := by
  intro a b h
  cases a with
  | none =>
      cases b with
      | none => rfl
      | some text => cases h
  | some text =>
      cases b with
      | none => cases h
      | some other => exact congrArg some (Json.string.inj h)

theorem textMember_inj (name : String) (a b : Text) :
    textMember name a = textMember name b ↔ a = b := by
  rw [textMember, textMember, Prod.mk.injEq, Json.string.injEq]
  exact and_iff_right rfl

theorem flagMember_inj (name : String) (a b : Bool) :
    flagMember name a = flagMember name b ↔ a = b := by
  rw [flagMember, flagMember, Prod.mk.injEq, Json.bool.injEq]
  exact and_iff_right rfl

theorem descriptionMember_inj (a b : Option Text) :
    descriptionMember a = descriptionMember b ↔ a = b := by
  constructor
  · intro h
    exact ofOption_injective (congrArg Prod.snd h)
  · rintro rfl
    rfl

theorem listMember_inj {α : Type} {encode : α → Json} (h : Function.Injective encode)
    (name : String) (a b : List α) :
    listMember name encode a = listMember name encode b ↔ a = b := by
  rw [listMember, listMember, Prod.mk.injEq, Json.array.injEq,
    (List.map_injective_iff.mpr h).eq_iff]
  exact and_iff_right rfl

theorem FieldDoc.toJson_injective : Function.Injective FieldDoc.toJson := by
  rintro ⟨⟩ ⟨⟩ h
  simpa only [FieldDoc.toJson, Json.object.injEq, List.cons.injEq, textMember_inj, flagMember_inj,
    descriptionMember_inj, and_true, FieldDoc.mk.injEq] using h

theorem ParamDoc.toJson_injective : Function.Injective ParamDoc.toJson := by
  rintro ⟨⟩ ⟨⟩ h
  simpa only [ParamDoc.toJson, Json.object.injEq, List.cons.injEq, textMember_inj, flagMember_inj,
    descriptionMember_inj, and_true, ParamDoc.mk.injEq] using h

theorem ReturnDoc.toJson_injective : Function.Injective ReturnDoc.toJson := by
  rintro ⟨⟩ ⟨⟩ h
  simpa only [ReturnDoc.toJson, Json.object.injEq, List.cons.injEq, textMember_inj,
    descriptionMember_inj, and_true, ReturnDoc.mk.injEq] using h

theorem FunctionDoc.toJson_injective : Function.Injective FunctionDoc.toJson := by
  rintro ⟨⟩ ⟨⟩ h
  simpa only [FunctionDoc.toJson, Json.object.injEq, List.cons.injEq, textMember_inj,
    flagMember_inj, descriptionMember_inj, listMember_inj ParamDoc.toJson_injective,
    listMember_inj ReturnDoc.toJson_injective, and_true, FunctionDoc.mk.injEq] using h

theorem ClassDoc.toJson_injective : Function.Injective ClassDoc.toJson := by
  rintro ⟨⟩ ⟨⟩ h
  simpa only [ClassDoc.toJson, Json.object.injEq, List.cons.injEq, textMember_inj,
    descriptionMember_inj, listMember_inj FieldDoc.toJson_injective,
    listMember_inj FunctionDoc.toJson_injective, and_true, ClassDoc.mk.injEq] using h

theorem NamespaceDoc.toJson_injective : Function.Injective NamespaceDoc.toJson := by
  rintro ⟨⟩ ⟨⟩ h
  simpa only [NamespaceDoc.toJson, Json.object.injEq, List.cons.injEq, textMember_inj,
    listMember_inj FieldDoc.toJson_injective, listMember_inj FunctionDoc.toJson_injective,
    listMember_inj ClassDoc.toJson_injective, and_true, NamespaceDoc.mk.injEq] using h

/-- Two documents with the same JSON are the same. -/
theorem Doc.toJson_injective : Function.Injective Doc.toJson := by
  rintro ⟨⟩ ⟨⟩ h
  simpa only [Doc.toJson, Json.object.injEq, List.cons.injEq,
    listMember_inj NamespaceDoc.toJson_injective, and_true, Doc.mk.injEq] using h

end Injective

/-! ## Exported text -/

/-- **Export loses nothing.** In every layout the text of documentation is read as the JSON of that
documentation, and texts that are equal come from equal documentation, whatever their layouts.
Without an indentation the text has no line feed. -/
theorem read_export :
    (∀ (row : Placeholders) (doc : Doc) (indent : Option Int),
        Json.read row (doc.export indent) = .ok doc.toJson) ∧
      (∀ (doc other : Doc) (indent otherIndent : Option Int),
        doc.export indent = other.export otherIndent → doc = other) ∧
      ∀ doc : Doc, '\n' ∉ doc.export none ∧ '\n' ∉ doc.export (some 0) := by
  have hread (row : Placeholders) (doc : Doc) (indent : Option Int) :
      Json.read row (doc.export indent) = .ok doc.toJson :=
    Json.read_write doc.fits_depthLimit row (.ofIndent indent)
  refine ⟨hread, fun doc other indent otherIndent h => ?_, fun doc => ?_⟩
  · have hdoc := hread ⟨0⟩ doc indent
    rw [h, hread ⟨0⟩ other otherIndent] at hdoc
    exact Doc.toJson_injective (Except.ok.inj hdoc).symm
  · have hline : '\n' ∉ doc.toJson.writeAt .compact 0 :=
      Json.lineFeed_not_mem_writeAt doc.fits_depthLimit 0
    exact ⟨hline, hline⟩

/-- A class with a quote, a backslash, a line feed and other control characters in its texts. -/
def quotingDoc : Doc :=
  ⟨[⟨"game".toList, [⟨"A".toList, some "say \"hi\"\n\x00\x1f\\".toList,
    [⟨"x".toList, "\t|\u2028".toList, false, none⟩], []⟩], [], []⟩]⟩

/-- Documentation made of the same classes has the same text, and so it is the same. -/
theorem quotingDoc_read :
    Json.read ⟨0xF0000⟩ (quotingDoc.export (some (-1))) = .ok quotingDoc.toJson ∧
      quotingDoc.export none =
        Doc.export ⟨[⟨"game".toList, quotingDoc.namespaces.flatMap NamespaceDoc.classes, [], []⟩]⟩
          (some 0) ∧
      quotingDoc =
        ⟨[⟨"game".toList, quotingDoc.namespaces.flatMap NamespaceDoc.classes, [], []⟩]⟩ ∧
      '\n' ∉ quotingDoc.export none :=
  ⟨read_export.1 _ _ _, rfl, read_export.2.1 _ _ none (some 0) rfl, (read_export.2.2 _).1⟩

end LuaReference
