import LuaReference.Proofs.Reader.TableScan
import LuaReference.Proofs.Tag.Continuation

set_option autoImplicit false

/-! # The type comments of an entry

A type comment in front of an entry waits until a line names one. A line of code that names none, as
a positional value or an entry in brackets, uses no comment up, so what was written about that line
is still there when the next entry is named (`read_types`).

The comments of an entry are thus two runs: those left over from such lines and its own, which
stand behind the last line of code. Of both the last that declares a type is the one that counts
(`value_eq`), so the older ones matter where none of its own does.
-/

namespace LuaReference

namespace EnumTable

/-! ## What type comments say -/

/-- The type that the last of some comments that declare one declares. -/
def lastType? (types : List Text) : Option TypeDecl :=
  (types.filterMap fun line => (Tag.ofLine? line).bind Tag.typeDecl?).getLast?

/-- The type and the description of a value. -/
def typing : Option TypeDecl → Text × Option Text
  | none => (anyType, none)
  | some decl => (decl.type, cleanDescription decl.description)

theorem lastType?_append (older types : List Text) :
    lastType? (older ++ types) = (lastType? types).or (lastType? older) := by
  rw [lastType?, List.filterMap_append, List.getLast?_append, lastType?, lastType?]

/-- A value has the type and the description that the last declaration gives. -/
theorem value_eq (name : Text) (types : List Text) :
    value name types =
      ⟨name, (typing (lastType? types)).1, false, (typing (lastType? types)).2⟩ := by
  have htype : (Block.ofLines types).typeDecl = lastType? types := by
    rw [Block.ofLines, Block.foldl_addLine_eq, Block.described, lastType?]
  rw [value, htype]
  cases lastType? types <;> rfl

theorem value_eq_value_iff (name : Text) (types types' : List Text) :
    value name types = value name types' ↔
      typing (lastType? types) = typing (lastType? types') := by
  simp [value_eq, Prod.ext_iff]

/-- Older comments change nothing behind others if one of these declares a type, or if what they
declare is what a value has without any. -/
theorem value_append_iff (name : Text) (older types : List Text) :
    value name (older ++ types) = value name types ↔
      (lastType? types).isSome = true ∨ typing (lastType? older) = (anyType, none) := by
  rw [value_eq_value_iff, lastType?_append]
  cases lastType? types with
  | none => simp [typing]
  | some decl => simp

/-! ## Lines that use type comments up -/

/-- Whether a line is read as code between two entries. -/
def isCode (before : List Text) (line : Text) : Bool :=
  depthBehind before = 0 && (bodyLine? before line).any fun text => !text.isEmpty && !isComment text

/-- The type comments in front of the next line, up to the last line of code. -/
def ownTypes (lines : List Text) : List Text := typesSince isCode lines

/-- A line that names an entry is one of code. -/
theorem isCode_of_named? {before : List Text} {line : Text}
    (h : (named? before line).isSome = true) : isCode before line = true := by
  rw [named?] at h
  split at h
  · cases h
  · rename_i hread
    rw [not_or, not_not] at hread
    obtain ⟨name, hname⟩ := Option.isSome_iff_exists.mp h
    obtain ⟨text, hbody, hname⟩ := Option.bind_eq_some_iff.mp hname
    rw [Option.ite_none_left_eq_some] at hname
    have hne : text ≠ [] := by
      rintro rfl
      cases hname.2
    simp [isCode, hread.2, hbody, hname.1, hne]

section Since

variable {uses uses' : List Text → Text → Bool}

/-- The more lines use type comments up, the fewer wait, and these are the last ones. -/
theorem typesSince_suffix
    (h : ∀ before line, uses before line = true → uses' before line = true) (lines : List Text) :
    typesSince uses' lines <:+ typesSince uses lines := by
  induction lines using List.reverseRecOn with
  | nil => exact List.suffix_refl _
  | append_singleton before line ih =>
      rw [typesSince_concat, typesSince_concat]
      cases huses' : uses' before line with
      | true => exact List.nil_suffix
      | false =>
          -- the line uses none up either way, so what was left over stays in front
          have huses : uses before line = false := by
            rw [← Bool.not_eq_true] at huses' ⊢
            exact fun hu => huses' (h before line hu)
          obtain ⟨older, holder⟩ := ih
          rw [huses, ← holder]
          exact ⟨older, (List.append_assoc ..).symm⟩

theorem typesSince_congr {lines : List Text}
    (h : ∀ place ∈ places lines, uses place.1 place.2 = uses' place.1 place.2) :
    typesSince uses lines = typesSince uses' lines := by
  induction lines using List.reverseRecOn with
  | nil => rfl
  | append_singleton before line ih =>
      simp only [places_concat, List.mem_append, List.mem_singleton, or_imp, forall_and,
        forall_eq] at h
      rw [typesSince_concat, typesSince_concat, h.2, ih h.1]

end Since

/-- **The types of the entries.** An entry has the type comments behind the last line that named
one: its own, and in front of them those that lines of code without an entry left over. There are
none of these if every line of code in front of the entry names one. Otherwise the value is as its
own comments say just if one of these declares a type, or the older ones declare none that shows. -/
theorem read_types (first : Text) (lines : List Text) : ∃ taken : List Text,
    first :: lines = taken ++ (read first lines).2 ∧ SplitsAtEnd taken (read first lines).2 ∧
    (read first lines).1 = (entries taken).map (fun entry => value entry.2 (typesBehind entry.1)) ∧
    ∀ before name, ∃ older : List Text, typesBehind before = older ++ ownTypes before ∧
      ((∀ place ∈ places before, isCode place.1 place.2 = true →
        (named? place.1 place.2).isSome = true) → older = []) ∧
      (value name (typesBehind before) = value name (ownTypes before) ↔
        (lastType? (ownTypes before)).isSome = true ∨
          typing (lastType? older) = (anyType, none)) := by
  obtain ⟨taken, hlines, hsplit, hvalues⟩ := read_splitsAtEnd first lines
  refine ⟨taken, hlines, hsplit, hvalues.symm, fun before name => ?_⟩
  obtain ⟨older, holder⟩ := typesSince_suffix (fun _ _ => isCode_of_named?) before
  have htypes : typesBehind before = older ++ ownTypes before := holder.symm
  refine ⟨older, htypes, fun hall => ?_, ?_⟩
  · have hsame : typesBehind before = ownTypes before := typesSince_congr fun place hplace =>
      Bool.eq_iff_iff.mpr ⟨isCode_of_named?, hall place hplace⟩
    rw [hsame] at htypes
    exact List.self_eq_append_left.mp htypes
  · rw [htypes]
    exact value_append_iff name older (ownTypes before)

/-- What is written about an entry in brackets goes to the entry behind it. -/
theorem bracketedEntry_type :
    let type := "---@type number how many".toList
    let before := ["E = \x7b".toList, type, "[\"a-b\"] = 1,".toList]
    named? before "B = 2,".toList = some "B".toList ∧
      typesBehind before = [type] ∧ ownTypes before = [] ∧
      value "B".toList (ownTypes before) = ⟨"B".toList, anyType, false, none⟩ ∧
      read "E = \x7b".toList [type, "[\"a-b\"] = 1,".toList, "B = 2,".toList, "\x7d".toList] =
        ([⟨"B".toList, "number".toList, false, some "how many".toList⟩], []) := by
  decide +kernel

end EnumTable

end LuaReference
