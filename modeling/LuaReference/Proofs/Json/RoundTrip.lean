import LuaReference.Proofs.Json.Strings
import Mathlib.Data.List.Nodup

set_option autoImplicit false

/-! # Values are read as they were written

A value without numbers whose objects have each name once is read back from its text in every
layout (`read_write`). The induction is on the value (`Fits`), and each level of it takes the items
or the members one by one, in front of any rest; the length of the text bounds the steps.
-/

namespace LuaReference.Json

/-- A value without numbers, `depth` arrays and objects deep at most, in which no object has a name
twice. -/
inductive Fits : Nat → Json → Prop where
  | null (depth : Nat) : Fits depth .null
  | bool (depth : Nat) (value : Bool) : Fits depth (.bool value)
  | string (depth : Nat) (value : Text) : Fits depth (.string value)
  | array {depth : Nat} {items : List Json} (items_fit : ∀ item ∈ items, Fits depth item) :
      Fits (depth + 1) (.array items)
  | object {depth : Nat} {members : List (Text × Json)}
      (distinct : (members.map Prod.fst).Nodup) (members_fit : ∀ m ∈ members, Fits depth m.2) :
      Fits (depth + 1) (.object members)

/-! ## Space between the parts -/

/-- A text that is passed over between the parts of a value. -/
def IsGap (text : Text) : Prop := ∀ c ∈ text, [' ', '\t', '\n', '\r'].contains c = true

theorem skipSpace_append {gap : Text} (h : IsGap gap) (rest : Text) :
    skipSpace (gap ++ rest) = skipSpace rest :=
  List.dropWhile_append_of_pos h

theorem skipSpace_cons {c : Char} (h : [' ', '\t', '\n', '\r'].contains c = false) (rest : Text) :
    skipSpace (c :: rest) = c :: rest := by
  rw [skipSpace, List.dropWhile_cons_of_neg (by rw [h]; exact Bool.false_ne_true)]

theorem isGap_space : IsGap [' '] := List.forall_mem_singleton.mpr rfl

theorem isGap_lineBreak (layout : Layout) (level : Nat) : IsGap (layout.lineBreak level) := by
  cases layout with
  | dense => exact fun c hc => absurd hc List.not_mem_nil
  | compact => exact fun c hc => absurd hc List.not_mem_nil
  | indented width =>
      intro c hc
      rcases List.mem_cons.mp hc with rfl | hc
      · rfl
      · rw [List.eq_of_mem_replicate hc]
        rfl

/-- What stands between two items is a comma and a gap. -/
theorem separator_eq (layout : Layout) (level : Nat) :
    ∃ gap, layout.separator level = ',' :: gap ∧ IsGap gap := by
  cases layout with
  | dense => exact ⟨[], rfl, fun c hc => absurd hc List.not_mem_nil⟩
  | compact => exact ⟨[' '], rfl, isGap_space⟩
  | indented width => exact ⟨_, rfl, isGap_lineBreak (.indented width) level⟩

/-- What stands between a name and its value is a colon and a gap. -/
theorem colon_eq (layout : Layout) : ∃ gap, layout.colon = ':' :: gap ∧ IsGap gap := by
  cases layout with
  | dense => exact ⟨[], rfl, fun c hc => absurd hc List.not_mem_nil⟩
  | compact => exact ⟨[' '], rfl, isGap_space⟩
  | indented width => exact ⟨[' '], rfl, isGap_space⟩

/-- The characters that a value without numbers begins with. -/
def openings : List Char := ['n', 't', 'f', '"', '[', '\x7b']

theorem exists_opening {depth : Nat} {value : Json} (h : Fits depth value) (layout : Layout)
    (level : Nat) : ∃ c ∈ openings, ∃ text, writeAt layout level value = c :: text := by
  cases h with
  | null => exact ⟨'n', by decide, _, rfl⟩
  | bool _ value =>
      cases value with
      | true => exact ⟨'t', by decide, _, rfl⟩
      | false => exact ⟨'f', by decide, _, rfl⟩
  | string _ value => exact ⟨'"', by decide, _, rfl⟩
  | @array _ items _ =>
      cases items with
      | nil => exact ⟨'[', by decide, _, rfl⟩
      | cons item items => exact ⟨'[', by decide, _, by rw [writeAt]⟩
  | @object _ members _ _ =>
      cases members with
      | nil => exact ⟨'\x7b', by decide, _, rfl⟩
      | cons member members => exact ⟨'\x7b', by decide, _, by rw [writeAt]⟩

/-- No space stands in front of a value. -/
theorem skipSpace_writeAt {depth : Nat} {value : Json} (h : Fits depth value) (layout : Layout)
    (level : Nat) (rest : Text) :
    skipSpace (writeAt layout level value ++ rest) = writeAt layout level value ++ rest := by
  obtain ⟨c, hc, text, htext⟩ := exists_opening h layout level
  have hall : ∀ c ∈ openings, [' ', '\t', '\n', '\r'].contains c = false := by
    simp [openings]
  rw [htext, List.cons_append, skipSpace_cons (hall c hc)]

/-! ## Items and members -/

/-- The text of a value is read back, whatever stands behind it. -/
def ReadsBack (row : Placeholders) (layout : Layout) (depth : Nat) (value : Json) : Prop :=
  ∀ level fuel rest, (writeAt layout level value).length < fuel →
    readValue row depth fuel (writeAt layout level value ++ rest) = .ok (value, rest)

section Parts

variable {row : Placeholders} {layout : Layout} {depth : Nat}

/-- Behind a gap a value begins where it is written. -/
theorem skipSpace_gap_writeAt {gap : Text} (hgap : IsGap gap) {value : Json}
    (h : Fits depth value) (level : Nat) (rest : Text) :
    skipSpace (gap ++ (writeAt layout level value ++ rest)) =
      writeAt layout level value ++ rest := by
  rw [skipSpace_append hgap, skipSpace_writeAt h]

theorem skipSpace_comma (rest : Text) : skipSpace (',' :: rest) = ',' :: rest :=
  skipSpace_cons (by decide) rest

theorem skipSpace_colon (rest : Text) : skipSpace (':' :: rest) = ':' :: rest :=
  skipSpace_cons (by decide) rest

/-- The items of an array are read back up to the closing bracket. -/
theorem readItems_written {item : Json} {items : List Json}
    (hfits : ∀ other ∈ item :: items, Fits depth other)
    (hread : ∀ other ∈ item :: items, ReadsBack row layout depth other) (level fuel : Nat)
    {tail rest : Text} (htail : skipSpace tail = ']' :: rest)
    (hfuel : (writeAt layout level item ++ writeItems layout level items).length + 1 < fuel) :
    readItems row depth fuel
        (writeAt layout level item ++ (writeItems layout level items ++ tail)) =
      .ok (item :: items, rest) := by
  -- on the items behind the first one; the comma in front of each pays for one step of reading
  induction items generalizing item fuel with
  | nil =>
      obtain ⟨fuel, rfl⟩ := Nat.exists_eq_add_one.mpr (Nat.zero_lt_of_lt hfuel)
      rw [List.length_append] at hfuel
      have hitem := hread item List.mem_cons_self level fuel tail (by omega)
      rw [writeItems, List.nil_append, readItems, hitem]
      simp only [bind, Except.bind, htail]
  | cons next items ih =>
      obtain ⟨fuel, rfl⟩ := Nat.exists_eq_add_one.mpr (Nat.zero_lt_of_lt hfuel)
      obtain ⟨gap, hseparator, hgap⟩ := separator_eq layout level
      rw [writeItems, hseparator] at hfuel ⊢
      simp only [List.cons_append, List.append_assoc, List.length_cons, List.length_append]
        at hfuel ⊢
      have hnext := ih (fun other ho => hfits other (List.mem_cons_of_mem _ ho))
        (fun other ho => hread other (List.mem_cons_of_mem _ ho)) fuel
        (by rw [List.length_append]; omega)
      have hnextFits : Fits depth next := hfits next (by simp)
      rw [readItems, hread item List.mem_cons_self level fuel _ (by omega)]
      simp only [bind, Except.bind, skipSpace_comma,
        skipSpace_gap_writeAt hgap hnextFits, hnext]

/-- The last member of an object is read back. -/
theorem readMembers_last {name : Text} {value : Json} (hfits : Fits depth value)
    (hread : ReadsBack row layout depth value) (level : Nat) {fuel : Nat}
    (hfuel : (writeAt layout level value).length < fuel) {behind rest : Text}
    (hend : skipSpace behind = '\x7d' :: rest) :
    readMembers row depth (fuel + 1)
        (quote name ++ (layout.colon ++ (writeAt layout level value ++ behind))) =
      .ok ([(name, value)], rest) := by
  obtain ⟨gap, hcolon, hgap⟩ := colon_eq layout
  rw [hcolon, List.cons_append, quote_append, readMembers]
  simp only [bind, Except.bind, readString_escape, skipSpace_colon,
    skipSpace_gap_writeAt hgap hfits, hread level fuel behind hfuel, hend]

/-- A member with further ones behind a comma is read back in front of them. -/
theorem readMembers_more {name : Text} {value : Json} (hfits : Fits depth value)
    (hread : ReadsBack row layout depth value) (level : Nat) {fuel : Nat}
    (hfuel : (writeAt layout level value).length < fuel) {behind text rest : Text}
    {members : List (Text × Json)} (hcomma : skipSpace behind = ',' :: text)
    (hnext : readMembers row depth fuel (skipSpace text) = .ok (members, rest)) :
    readMembers row depth (fuel + 1)
        (quote name ++ (layout.colon ++ (writeAt layout level value ++ behind))) =
      .ok ((name, value) :: members, rest) := by
  obtain ⟨gap, hcolon, hgap⟩ := colon_eq layout
  rw [hcolon, List.cons_append, quote_append, readMembers]
  simp only [bind, Except.bind, readString_escape, skipSpace_colon,
    skipSpace_gap_writeAt hgap hfits, hread level fuel behind hfuel, hcomma, hnext]

/-- The members of an object are read back up to the closing brace. -/
theorem readMembers_written {name : Text} {value : Json} {members : List (Text × Json)}
    (hfits : ∀ m ∈ (name, value) :: members, Fits depth m.2)
    (hread : ∀ m ∈ (name, value) :: members, ReadsBack row layout depth m.2) (level fuel : Nat)
    {tail rest : Text} (htail : skipSpace tail = '\x7d' :: rest)
    (hfuel : (writeAt layout level value ++ writeMembers layout level members).length + 1 < fuel) :
    readMembers row depth fuel (quote name ++ (layout.colon ++ (writeAt layout level value ++
        (writeMembers layout level members ++ tail)))) =
      .ok ((name, value) :: members, rest) := by
  induction members generalizing name value fuel with
  | nil =>
      obtain ⟨fuel, rfl⟩ := Nat.exists_eq_add_one.mpr (Nat.zero_lt_of_lt hfuel)
      rw [List.length_append] at hfuel
      have hvalueFits : Fits depth value := hfits (name, value) List.mem_cons_self
      have hvalue : ReadsBack row layout depth value := hread (name, value) List.mem_cons_self
      exact readMembers_last hvalueFits hvalue level (by omega) htail
  | cons next members ih =>
      obtain ⟨fuel, rfl⟩ := Nat.exists_eq_add_one.mpr (Nat.zero_lt_of_lt hfuel)
      obtain ⟨nextName, nextValue⟩ := next
      obtain ⟨gap, hseparator, hgap⟩ := separator_eq layout level
      rw [writeMembers, hseparator] at hfuel ⊢
      simp only [List.cons_append, List.append_assoc, List.length_cons, List.length_append]
        at hfuel ⊢
      have hnext := ih (fun other ho => hfits other (List.mem_cons_of_mem _ ho))
        (fun other ho => hread other (List.mem_cons_of_mem _ ho)) fuel
        (by rw [List.length_append]; omega)
      have hstart : skipSpace (gap ++ (quote nextName ++ (layout.colon ++
          (writeAt layout level nextValue ++ (writeMembers layout level members ++ tail))))) =
            quote nextName ++ (layout.colon ++ (writeAt layout level nextValue ++
              (writeMembers layout level members ++ tail))) := by
        rw [skipSpace_append hgap, quote_append, skipSpace_cons (by decide)]
      have hvalueFits : Fits depth value := hfits (name, value) List.mem_cons_self
      have hvalue : ReadsBack row layout depth value := hread (name, value) List.mem_cons_self
      refine readMembers_more hvalueFits hvalue level (by omega) (skipSpace_comma _) ?_
      rw [hstart, hnext]

end Parts

/-! ## Values -/

/-- A name that no member has has no last value. -/
theorem lastOf?_eq_none {name : Text} {members : List (Text × Json)}
    (h : name ∉ members.map Prod.fst) : lastOf? name members = none := by
  induction members with
  | nil => rfl
  | cons member members ih =>
      obtain ⟨key, value⟩ := member
      rw [List.map_cons, List.mem_cons, not_or] at h
      rw [lastOf?, ih h.2]
      exact if_neg fun hkey => h.1 hkey.symm

/-- Members that have each name once are settled already. -/
theorem settled_eq_self {members : List (Text × Json)} (h : (members.map Prod.fst).Nodup) :
    settled members = members := by
  induction members with
  | nil => rfl
  | cons member members ih =>
      obtain ⟨key, value⟩ := member
      rw [List.map_cons, List.nodup_cons] at h
      have hkept : members.filter (·.1 ≠ key) = members := by
        refine List.filter_eq_self.mpr fun other ho => decide_eq_true fun hkey => ?_
        exact h.1 (List.mem_map.mpr ⟨other, ho, hkey⟩)
      rw [settled, lastOf?_eq_none h.1, ih h.2, hkept]
      rfl

/-- An array with something else than a closing bracket behind its opening one is read item by
item. -/
theorem readValue_array (row : Placeholders) (depth fuel : Nat) {text behind : Text} {c : Char}
    (h : skipSpace text = c :: behind) (hc : c ≠ ']') :
    readValue row (depth + 1) (fuel + 1) ('[' :: text) =
      (readItems row depth fuel (c :: behind)).map fun found => (.array found.1, found.2) := by
  rw [readValue]
  simp only [h]
  split
  · rename_i hclose
    exact absurd (List.cons.inj hclose).1 hc
  · rfl

/-- An object with a quote behind its opening brace is read member by member. -/
theorem readValue_object (row : Placeholders) (depth fuel : Nat) {text behind : Text}
    (h : skipSpace text = '"' :: behind) :
    readValue row (depth + 1) (fuel + 1) ('\x7b' :: text) =
      (readMembers row depth fuel ('"' :: behind)).map fun found =>
        (.object (settled found.1), found.2) := by
  rw [readValue]
  simp only [h]
  rfl

theorem readsBack_array {row : Placeholders} {layout : Layout} {depth : Nat} {items : List Json}
    (hfits : ∀ item ∈ items, Fits depth item)
    (hread : ∀ item ∈ items, ReadsBack row layout depth item) :
    ReadsBack row layout (depth + 1) (.array items) := by
  intro level fuel rest hfuel
  obtain ⟨fuel, rfl⟩ := Nat.exists_eq_add_one.mpr (Nat.zero_lt_of_lt hfuel)
  cases items with
  | nil => rfl
  | cons item items =>
      have htail : skipSpace (layout.lineBreak level ++ ']' :: rest) = ']' :: rest := by
        rw [skipSpace_append (isGap_lineBreak layout level), skipSpace_cons (by decide)]
      have hitemFits : Fits depth item := hfits item List.mem_cons_self
      obtain ⟨c, hc, text, htext⟩ := exists_opening hitemFits layout (level + 1)
      -- the first item does not begin as an empty array ends
      have hopen : ∀ c ∈ openings, c ≠ ']' := by simp [openings]
      rw [writeAt] at hfuel ⊢
      simp only [List.cons_append, List.append_assoc, List.length_cons, List.length_append,
        List.nil_append] at hfuel ⊢
      have hitems := readItems_written hfits hread (level + 1) fuel htail
        (by rw [List.length_append]; omega)
      have hstart : skipSpace (layout.lineBreak (level + 1) ++ (writeAt layout (level + 1) item ++
          (writeItems layout (level + 1) items ++ (layout.lineBreak level ++ ']' :: rest)))) = _ :=
        skipSpace_gap_writeAt (isGap_lineBreak layout (level + 1)) hitemFits _ _
      rw [htext, List.cons_append] at hstart hitems ⊢
      rw [readValue_array row depth fuel hstart (hopen c hc), hitems]
      rfl

theorem readsBack_object {row : Placeholders} {layout : Layout} {depth : Nat}
    {members : List (Text × Json)} (hdistinct : (members.map Prod.fst).Nodup)
    (hfits : ∀ m ∈ members, Fits depth m.2)
    (hread : ∀ m ∈ members, ReadsBack row layout depth m.2) :
    ReadsBack row layout (depth + 1) (.object members) := by
  intro level fuel rest hfuel
  obtain ⟨fuel, rfl⟩ := Nat.exists_eq_add_one.mpr (Nat.zero_lt_of_lt hfuel)
  cases members with
  | nil => rfl
  | cons member members =>
      obtain ⟨name, value⟩ := member
      have htail : skipSpace (layout.lineBreak level ++ '\x7d' :: rest) = '\x7d' :: rest := by
        rw [skipSpace_append (isGap_lineBreak layout level), skipSpace_cons (by decide)]
      rw [writeAt] at hfuel ⊢
      simp only [List.cons_append, List.append_assoc, List.length_cons, List.length_append,
        List.nil_append] at hfuel ⊢
      have hmembers := readMembers_written hfits hread (level + 1) fuel htail
        (by rw [List.length_append]; omega)
      rw [quote_append] at hmembers ⊢
      rw [readValue_object row depth fuel (by
        rw [skipSpace_append (isGap_lineBreak layout (level + 1)), skipSpace_cons (by decide)]),
        hmembers]
      simp only [Except.map, settled_eq_self hdistinct]

theorem readsBack_of_fits {depth : Nat} {value : Json} (h : Fits depth value)
    (row : Placeholders) (layout : Layout) : ReadsBack row layout depth value := by
  induction h with
  | null depth =>
      intro level fuel rest hfuel
      obtain ⟨fuel, rfl⟩ := Nat.exists_eq_add_one.mpr (Nat.zero_lt_of_lt hfuel)
      rfl
  | bool depth value =>
      intro level fuel rest hfuel
      obtain ⟨fuel, rfl⟩ := Nat.exists_eq_add_one.mpr (Nat.zero_lt_of_lt hfuel)
      cases value <;> rfl
  | string depth value =>
      intro level fuel rest hfuel
      obtain ⟨fuel, rfl⟩ := Nat.exists_eq_add_one.mpr (Nat.zero_lt_of_lt hfuel)
      rw [writeAt, quote_append, readValue, readString_escape]
      rfl
  | array hfits ih => exact readsBack_array hfits ih
  | object hdistinct hfits ih => exact readsBack_object hdistinct hfits ih

/-- **A value is read back from its text** in every layout, if it is not deeper than what is
read. -/
theorem read_write {value : Json} (h : Fits depthLimit value) (row : Placeholders)
    (layout : Layout) : read row (value.write layout) = .ok value := by
  have hstart := skipSpace_writeAt h layout 0 []
  have hvalue := readsBack_of_fits h row layout 0 ((writeAt layout 0 value).length + 1) []
    (Nat.lt_succ_self _)
  rw [List.append_nil] at hstart hvalue
  rw [read, write, hstart, hvalue]
  rfl

/-! ## Values on one line -/

theorem lineFeed_not_mem_separator (level : Nat) : '\n' ∉ Layout.compact.separator level := by
  rw [Layout.separator]
  decide

theorem lineFeed_not_mem_colon : '\n' ∉ Layout.compact.colon := by decide

theorem lineFeed_not_mem_writeItems {items : List Json}
    (h : ∀ item ∈ items, ∀ level, '\n' ∉ writeAt .compact level item) (level : Nat) :
    '\n' ∉ writeItems .compact level items := by
  induction items with
  | nil => exact List.not_mem_nil
  | cons item items ih =>
      rw [writeItems, List.mem_append, List.mem_append, not_or, not_or]
      exact ⟨⟨lineFeed_not_mem_separator level, h item List.mem_cons_self level⟩,
        ih fun other ho => h other (List.mem_cons_of_mem _ ho)⟩

theorem lineFeed_not_mem_writeMembers {members : List (Text × Json)}
    (h : ∀ m ∈ members, ∀ level, '\n' ∉ writeAt .compact level m.2) (level : Nat) :
    '\n' ∉ writeMembers .compact level members := by
  induction members with
  | nil => exact List.not_mem_nil
  | cons member members ih =>
      obtain ⟨name, value⟩ := member
      have hrest := ih fun other ho => h other (List.mem_cons_of_mem _ ho)
      have hvalue := h (name, value) List.mem_cons_self level
      simp only [writeMembers, List.mem_append, not_or]
      exact ⟨⟨⟨⟨lineFeed_not_mem_separator level, lineFeed_not_mem_quote name⟩,
        lineFeed_not_mem_colon⟩, hvalue⟩, hrest⟩

/-- Written on one line a value holds no line feed. -/
theorem lineFeed_not_mem_writeAt {depth : Nat} {value : Json} (h : Fits depth value) :
    ∀ level, '\n' ∉ writeAt .compact level value := by
  induction h with
  | null depth => exact fun level => by rw [writeAt]; decide
  | bool depth value => exact fun level => by rw [writeAt]; cases value <;> decide
  | string depth value => exact fun level => lineFeed_not_mem_quote value
  | @array depth items _ ih =>
      intro level
      cases items with
      | nil => rw [writeAt]; decide
      | cons item items =>
          have hitem := ih item List.mem_cons_self (level + 1)
          have hitems := lineFeed_not_mem_writeItems
            (fun other ho => ih other (List.mem_cons_of_mem _ ho)) (level + 1)
          simp [writeAt, Layout.lineBreak, hitem, hitems]
  | @object depth members _ _ ih =>
      intro level
      cases members with
      | nil => rw [writeAt]; decide
      | cons member members =>
          obtain ⟨name, value⟩ := member
          have hvalue := ih (name, value) List.mem_cons_self (level + 1)
          have hmembers := lineFeed_not_mem_writeMembers
            (fun other ho => ih other (List.mem_cons_of_mem _ ho)) (level + 1)
          simp [writeAt, Layout.lineBreak, lineFeed_not_mem_quote, lineFeed_not_mem_colon, hvalue,
            hmembers]

end LuaReference.Json
