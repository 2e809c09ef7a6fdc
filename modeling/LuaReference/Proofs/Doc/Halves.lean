import LuaReference.Doc.Export

set_option autoImplicit false

/-! # Documentation that has no spelling

Half of a surrogate pair in the name of a namespace shows up in the text of the documentation, as
strings are written character by character (`mem_export`). So halves are found in the text exactly
when a name holds one (`halves?_eq_none_iff`).
-/

namespace LuaReference

/-! ## Placeholders -/

namespace Placeholders

theorem findHalves?_eq_none_iff {row : Placeholders} {text : Text} (position : Nat) :
    row.findHalves? position text = none ↔ ∀ c ∈ text, row.half? c = none := by
  induction text generalizing position with
  | nil => simp [findHalves?]
  | cons c text ih =>
      rw [findHalves?, List.forall_mem_cons]
      cases row.half? c with
      | none => simp [ih]
      | some half => simp

/-- Wherever a row is taken from, it lies in the planes for private use. -/
theorem first_avoiding (points : List Nat) :
    ∃ n < 64, (avoiding points).first = 0xF0000 + 0x800 * n := by
  have hall : ∀ row ∈ all, ∃ n < 64, row.first = 0xF0000 + 0x800 * n := by
    intro row hrow
    obtain ⟨n, hn, rfl⟩ := List.mem_map.mp hrow
    exact ⟨n, List.mem_range.mp hn, rfl⟩
  rw [avoiding]
  cases hfind : all.find? fun row => points.all (!row.covers ·) with
  | none => exact ⟨0, by omega, rfl⟩
  | some row => exact hall row (List.mem_of_find?_eq_some hfind)

theorem half?_eq_some_iff {row : Placeholders} {c : Char} {half : Nat} :
    row.half? c = some half ↔
      (row.first ≤ c.toNat ∧ c.toNat ≤ row.first + 0x7FF) ∧
        0xD800 + (c.toNat - row.first) = half := by
  simp [half?, covers]

/-- The placeholder for a half lies far behind all characters that are escaped. -/
theorem toNat_char_avoiding (points : List Nat) {half : Nat} (h : 0xD800 ≤ half ∧ half ≤ 0xDFFF) :
    ((avoiding points).char half).toNat = (avoiding points).first + (half - 0xD800) := by
  obtain ⟨n, hn, hfirst⟩ := first_avoiding points
  have hhalf : (isHighHalf half || isLowHalf half) = true := by
    simp only [isHighHalf, isLowHalf, Bool.or_eq_true, Bool.and_eq_true, decide_eq_true_eq]
    omega
  have hvalid : ((avoiding points).first + (half - 0xD800)).isValidChar := by
    right
    omega
  rw [char, if_pos hhalf, Char.ofNat, dif_pos hvalid]
  rfl

end Placeholders

/-! ## Characters of a value -/

namespace Json

theorem escape_eq_self {c : Char} (h : 0x80 ≤ c.toNat) : escape c = [c] := by
  have hne (d : Char) (hd : d.toNat < 0x80) : c ≠ d := by
    rintro rfl
    omega
  have hcontrol : ¬ c.toNat < 0x20 := by omega
  simp only [escape, hne '"' (by decide), hne '\\' (by decide), hne '\n' (by decide),
    hne '\r' (by decide), hne '\t' (by decide), hne '\x0c' (by decide), hne '\x08' (by decide),
    hcontrol, if_false]

theorem mem_quote {c : Char} {text : Text} (hc : 0x80 ≤ c.toNat) (h : c ∈ text) :
    c ∈ quote text := by
  have hescaped : c ∈ text.flatMap escape :=
    List.mem_flatMap.mpr ⟨c, h, by rw [escape_eq_self hc]; exact List.mem_singleton_self c⟩
  simp [quote, hescaped]

/-- A character stands in a value, however it is laid out. -/
def Shows (c : Char) (value : Json) : Prop := ∀ layout depth, c ∈ value.writeAt layout depth

theorem shows_string {c : Char} {text : Text} (hc : 0x80 ≤ c.toNat) (h : c ∈ text) :
    Shows c (.string text) := fun layout depth => by
  rw [writeAt]
  exact mem_quote hc h

theorem shows_array {c : Char} {item : Json} {items : List Json} (h : item ∈ items)
    (hc : Shows c item) : Shows c (.array items) := by
  intro layout depth
  have hrest (items : List Json) (h : item ∈ items) (depth : Nat) :
      c ∈ writeItems layout depth items := by
    induction items with
    | nil => cases h
    | cons first items ih =>
        rw [writeItems, List.mem_append, List.mem_append]
        rcases List.mem_cons.mp h with rfl | h
        · exact .inl (.inr (hc layout depth))
        · exact .inr (ih h)
  cases items with
  | nil => cases h
  | cons first items =>
      rw [writeAt]
      rcases List.mem_cons.mp h with rfl | h
      · simp [hc layout (depth + 1)]
      · simp [hrest items h (depth + 1)]

theorem shows_object {c : Char} {value : Json} (name : Text) (members : List (Text × Json))
    (hc : Shows c value) : Shows c (.object ((name, value) :: members)) := by
  intro layout depth
  rw [writeAt]
  simp [hc layout (depth + 1)]

end Json

/-! ## Names -/

namespace Doc

/-- The characters in the name of a namespace stand in the text of the documentation. -/
theorem mem_export {doc : Doc} {space : NamespaceDoc} {c : Char} (hs : space ∈ doc.namespaces)
    (hc : c ∈ space.name) (hplain : 0x80 ≤ c.toNat) (indent : Option Int) :
    c ∈ doc.export indent := by
  have hname : Json.Shows c space.toJson :=
    Json.shows_object _ _ (Json.shows_string hplain hc)
  have hspaces : Json.Shows c (.array (doc.namespaces.map NamespaceDoc.toJson)) :=
    Json.shows_array (List.mem_map_of_mem hs) hname
  exact Json.shows_object _ _ hspaces (.ofIndent indent) 0

/-- **Halves are found in a text exactly when a name holds one.** -/
theorem halves?_eq_none_iff {row : Placeholders} {indent : Option Int} {doc : Doc} :
    doc.halves? row indent = none ↔ doc.holdsHalf row = false := by
  rw [halves?]
  split
  · rename_i hholds
    rw [hholds]
    refine iff_of_false (fun hnone => ?_) (by simp)
    obtain ⟨space, hspace, hname⟩ := List.any_eq_true.mp hholds
    obtain ⟨c, hc, hhalf⟩ := List.any_eq_true.mp hname
    obtain ⟨half, hhalf⟩ := Option.isSome_iff_exists.mp hhalf
    have hbounds : 0xD800 ≤ half ∧ half ≤ 0xDFFF := by
      have := Placeholders.half?_eq_some_iff.mp hhalf
      omega
    -- the half stands in the respelled name, so its placeholder stands in the text
    generalize (doc.export indent).map Char.toNat = points at hnone
    obtain ⟨n, -, hfirst⟩ := Placeholders.first_avoiding points
    have htoNat := Placeholders.toNat_char_avoiding points hbounds
    have hmem : (Placeholders.avoiding points).char half ∈
        row.respell (.avoiding points) space.name :=
      List.mem_map.mpr ⟨c, hc, by rw [hhalf]⟩
    have hexport : (Placeholders.avoiding points).char half ∈
        (doc.respell row (.avoiding points)).export indent :=
      mem_export (List.mem_map_of_mem hspace) hmem (by omega) indent
    have hfound := (Placeholders.findHalves?_eq_none_iff 0).mp hnone _ hexport
    rw [Placeholders.half?_eq_some_iff.mpr ⟨by omega, rfl⟩] at hfound
    cases hfound
  · rename_i hholds
    simpa using hholds

end Doc

end LuaReference
