import LuaReference.Proofs.Drafts.Rule

set_option autoImplicit false

/-! # Searching a line for a function header

A search stops at the leftmost place from which something is read (`search_eq_some_iff`), and a
header is read exactly where a written one begins (`header?_eq_some_iff`). So the header that is
found on a line is written there, and a written header at the start of a line is found with its
parts (`search_header?_written`). The longest path of words in front of the parameters holds the
name as well; that it is split off at the last separator and nowhere else is known from the text,
which cannot be written in two ways (`BeginsWith.unique`).
-/

namespace LuaReference

/-- **A search finds the leftmost place** from which something is read. -/
theorem search_eq_some_iff {α : Type} {recognise : Recogniser α} {text : Text} {found : Found α} :
    search recognise text = some found ↔
      found.start ≤ text.length ∧
        recognise (text.drop found.start) = some (found.value, found.rest) ∧
        ∀ n < found.start, recognise (text.drop n) = none := by
  induction text generalizing found with
  | nil =>
      obtain ⟨start, value, rest⟩ := found
      rw [search, Option.map_eq_some_iff]
      constructor
      · rintro ⟨⟨value, rest⟩, hread, ⟨⟩⟩
        exact ⟨Nat.le_refl 0, hread, by simp⟩
      · rintro ⟨hstart, hread, -⟩
        obtain rfl : start = 0 := Nat.le_zero.mp hstart
        exact ⟨(value, rest), hread, rfl⟩
  | cons c text ih =>
      obtain ⟨start, value, rest⟩ := found
      rw [search]
      cases hhere : recognise (c :: text) with
      | some read =>
          -- nothing further right counts
          obtain ⟨first, behind⟩ := read
          constructor
          · rintro ⟨⟩
            exact ⟨Nat.zero_le _, hhere, by simp⟩
          · rintro ⟨-, hread, hnone⟩
            cases start with
            | zero =>
                obtain ⟨rfl, rfl⟩ := Prod.mk.inj (Option.some.inj (hhere.symm.trans hread))
                rfl
            | succ start =>
                have hfirst := hnone 0 (Nat.succ_pos start)
                rw [List.drop_zero, hhere] at hfirst
                cases hfirst
      | none =>
          simp only [Option.map_eq_some_iff]
          constructor
          · rintro ⟨later, hlater, ⟨⟩⟩
            obtain ⟨hle, hread, hnone⟩ := ih.mp hlater
            refine ⟨Nat.succ_le_succ hle, hread, fun n hn => ?_⟩
            cases n with
            | zero => exact hhere
            | succ n => exact hnone n (Nat.lt_of_succ_lt_succ hn)
          · rintro ⟨hle, hread, hnone⟩
            cases start with
            | zero => rw [List.drop_zero, hhere] at hread; cases hread
            | succ start =>
                refine ⟨⟨start, value, rest⟩, ih.mpr ⟨Nat.le_of_succ_le_succ hle, hread, ?_⟩, rfl⟩
                exact fun n hn => hnone (n + 1) (Nat.succ_lt_succ hn)

namespace Declaration

/-- A text begins with a written header: the header is written there with some blanks, and `rest` is
the text behind it. -/
def BeginsWith (text : Text) (header : FunctionHeader) (rest : Text) : Prop :=
  header.IsWritten ∧ ∃ before after, before ≠ [] ∧ (∀ c ∈ before, isBlank c = true) ∧
    (∀ c ∈ after, isBlank c = true) ∧ text = headerText header before after ++ rest

/-- **A header is read where a written one begins**, and nowhere else. -/
theorem header?_eq_some_iff {text rest : Text} {header : FunctionHeader} :
    header? text = some (header, rest) ↔ BeginsWith text header rest := by
  constructor
  · intro h
    obtain ⟨hwritten, before, after, htext, hbefore, hne, hafter⟩ := eq_headerText_of_header? h
    exact ⟨hwritten, before, after, hne, hbefore, hafter, htext⟩
  · rintro ⟨hwritten, before, after, hne, hbefore, hafter, rfl⟩
    exact header?_append hwritten hbefore hne hafter rest

/-- A text begins with one header at most. -/
theorem BeginsWith.unique {text rest rest' : Text} {header header' : FunctionHeader}
    (h : BeginsWith text header rest) (h' : BeginsWith text header' rest') :
    header' = header ∧ rest' = rest := by
  have hread := header?_eq_some_iff.mpr h
  rw [header?_eq_some_iff.mpr h'] at hread
  exact Prod.mk.inj (Option.some.inj hread)

theorem header?_eq_none_iff {text : Text} :
    header? text = none ↔ ∀ header rest, ¬ BeginsWith text header rest := by
  simp [← header?_eq_some_iff, Option.eq_none_iff_forall_not_mem, Prod.forall]

/-- **Headers are found as they were written.** A written header at the start of a line is found
there, with the dotted owner, the separator, the name and the text of the parameters as its groups;
the first two are missing if it has no owner. And whatever is found on a line takes a text there
that is such a written header and can be read as no other one; further left no header begins. -/
theorem search_header?_written (line : Text) :
    (∀ header before after rest, header.IsWritten → before ≠ [] →
      (∀ c ∈ before, isBlank c = true) → (∀ c ∈ after, isBlank c = true) →
      line = headerText header before after ++ rest →
        search header? line = some ⟨0, header, rest⟩ ∧
          headerGroups? line = some [header.owner.map fun owner => dotted owner.path,
            header.owner.map fun owner => [owner.separator.mark], some header.name,
            some header.params]) ∧
    ∀ found, search header? line = some found →
      headerGroups? line = some found.value.groups ∧
      (found.value.IsWritten ∧ ∃ before after, before ≠ [] ∧ (∀ c ∈ before, isBlank c = true) ∧
        (∀ c ∈ after, isBlank c = true) ∧
        line = line.take found.start ++ (headerText found.value before after ++ found.rest) ∧
        found.span line =
          (found.start, found.start + (headerText found.value before after).length)) ∧
      (∀ header rest, BeginsWith (line.drop found.start) header rest →
        header = found.value ∧ rest = found.rest) ∧
      ∀ n < found.start, ∀ header rest, ¬ BeginsWith (line.drop n) header rest := by
  constructor
  · rintro header before after rest hwritten hne hbefore hafter rfl
    have hfound := Text.search_of_eq_some (header?_append hwritten hbefore hne hafter rest)
    refine ⟨hfound, ?_⟩
    rw [headerGroups?_eq, headerOf?, hfound]
    rfl
  · intro found hfound
    obtain ⟨hle, hread, hleft⟩ := search_eq_some_iff.mp hfound
    have hbegins := header?_eq_some_iff.mp hread
    refine ⟨?_, ?_, fun header rest h => hbegins.unique h,
      fun n hn => header?_eq_none_iff.mp (hleft n hn)⟩
    · rw [headerGroups?_eq, headerOf?, hfound]
      rfl
    · obtain ⟨hwritten, before, after, hne, hbefore, hafter, htext⟩ := hbegins
      have hline : line =
          line.take found.start ++ (headerText found.value before after ++ found.rest) := by
        rw [← htext, List.take_append_drop]
      refine ⟨hwritten, before, after, hne, hbefore, hafter, hline, ?_⟩
      have hlength := congrArg List.length hline
      simp only [List.length_append, List.length_take] at hlength
      rw [Found.span, Prod.mk.injEq]
      exact ⟨rfl, by omega⟩

/-- A method at the start of a line, with blanks of several kinds, and a function further right. -/
theorem search_spawnLine :
    let spawn : FunctionHeader :=
      ⟨some ⟨["Game".toList, "Player".toList], .colon⟩, "spawn".toList, "x, y".toList⟩
    let line := "function\t Game.Player:spawn (x, y) end".toList
    let jump : FunctionHeader := ⟨none, "jump".toList, []⟩
    let other := "Game.jump = function jump() end".toList
    (spawn.IsWritten ∧ line = headerText spawn "\t ".toList " ".toList ++ " end".toList ∧
        search header? line = some ⟨0, spawn, " end".toList⟩ ∧
        headerGroups? line = some [some "Game.Player".toList, some ":".toList,
          some "spawn".toList, some "x, y".toList]) ∧
      search header? other = some ⟨12, jump, " end".toList⟩ ∧ jump.IsWritten ∧
      headerGroups? other = some [none, none, some "jump".toList, some []] := by
  intro spawn line jump other
  have hpath : IsPath ["Game".toList, "Player".toList] := by
    refine ⟨by decide, fun word hword => ?_⟩
    rcases List.mem_pair.mp hword with rfl | rfl <;> exact ⟨by decide, by decide⟩
  have hspawn : spawn.IsWritten :=
    ⟨by rintro owner ⟨⟩; exact hpath, ⟨by decide, by decide⟩, by decide⟩
  have hline : line = headerText spawn "\t ".toList " ".toList ++ " end".toList := by decide
  have hother : search header? other = some ⟨12, jump, " end".toList⟩ := by decide +kernel
  obtain ⟨hfound, hgroups⟩ := (search_header?_written line).1 spawn "\t ".toList " ".toList
    " end".toList hspawn (by decide) (by decide) (by decide) hline
  obtain ⟨hjump, ⟨hwritten, -⟩, -⟩ := (search_header?_written other).2 _ hother
  exact ⟨⟨hspawn, hline, hfound, hgroups⟩, hother, hwritten, hjump⟩

end Declaration

end LuaReference
