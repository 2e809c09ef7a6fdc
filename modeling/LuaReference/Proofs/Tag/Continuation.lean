import LuaReference.Proofs.Tag.BlockParts
import Mathlib.Data.List.Induction

set_option autoImplicit false

/-! # Where plain text goes

A block is read with one mark in hand, the entry that plain text continues, and every line may move
the mark. Here the same block is described without reading it from the start. Each line of plain
text has an opener, the last line in front of it that is not plain. The description of a field or a
parameter is the text on its own line and the plain texts that it opened, in their order; all other
plain texts, with the texts behind the names of classes and enums, make the general description.

`foldl_addLine_eq` is the invariant of the reading, by induction on the lines from the last one:
what is described so far, and what the opener of the next line lets it continue.
-/

namespace LuaReference

namespace Block

/-! ## Openers -/

/-- The opener of place `n`: the place of the last line in front of it that is not plain. -/
def opener? (lines : List Text) : Nat → Option Nat
  | 0 => none
  | n + 1 => if ∀ line ∈ lines[n]?, IsPlain line then opener? lines n else some n

/-- The tag on the opener of place `n`. -/
def openTag? (lines : List Text) (n : Nat) : Option Tag :=
  (opener? lines n).bind fun i => lines[i]?.bind Tag.ofLine?

/-- What plain text at place `n` continues: the entry of its opener, or else the general
description. -/
def targetAt (lines : List Text) (n : Nat) : Target :=
  ((openTag? lines n).map Tag.target).getD .general

/-- What the lines of a block give, each by its place, in their order. -/
def collect {α : Type} (gives : Nat → Text → List α) (lines : List Text) : List α :=
  (lines.mapIdx gives).flatten

/-- The plain texts whose opener is place `i`. -/
def continuing (lines : List Text) (i : Nat) : List Text :=
  collect (fun n line =>
    if IsPlain line ∧ opener? lines n = some i then [Tag.commentText line] else []) lines

/-- What the line at place `n` gives to the general description. -/
def generalAt (lines : List Text) (n : Nat) (line : Text) : List Text :=
  match Tag.ofLine? line with
  | some tag => tag.generalTexts
  | none => if targetAt lines n = .general then Text.present (Tag.commentText line) else []

/-- The texts of the general description. -/
def general (lines : List Text) : List Text := collect (generalAt lines) lines

/-- The entry of one kind that the tag at place `i` makes together with the texts that continue
it. -/
def entryAt {α : Type} (given? : List Text → Tag → Option α) (lines : List Text) (i : Nat)
    (line : Text) : List α :=
  ((Tag.ofLine? line).bind (given? (continuing lines i))).toList

/-- The entries of one kind in a block. -/
def entries {α : Type} (given? : List Text → Tag → Option α) (lines : List Text) : List α :=
  collect (entryAt given? lines) lines

section Openers

variable {lines : List Text}

theorem opener?_lt {n i : Nat} (h : opener? lines n = some i) : i < n := by
  induction n with
  | zero => cases h
  | succ n ih =>
      rw [opener?] at h
      split at h
      · exact Nat.lt_succ_of_lt (ih h)
      · obtain rfl := Option.some.inj h
        exact Nat.lt_succ_self n

/-- Openers look at the lines in front of them only. -/
theorem opener?_append {n : Nat} (h : n ≤ lines.length) (more : List Text) :
    opener? (lines ++ more) n = opener? lines n := by
  induction n with
  | zero => rfl
  | succ n ih =>
      rw [opener?, opener?, List.getElem?_append_left (by omega), ih (by omega)]

theorem opener?_concat (lines : List Text) (line : Text) :
    opener? (lines ++ [line]) (lines.length + 1) =
      if IsPlain line then opener? lines lines.length else some lines.length := by
  rw [opener?, opener?_append (Nat.le_refl _), List.getElem?_concat_length]
  simp

theorem openTag?_append {n : Nat} (h : n ≤ lines.length) (more : List Text) :
    openTag? (lines ++ more) n = openTag? lines n := by
  rw [openTag?, openTag?, opener?_append h]
  cases hopener : opener? lines n with
  | none => rfl
  | some i =>
      have hi := opener?_lt hopener
      rw [Option.bind_some, Option.bind_some, List.getElem?_append_left (by omega)]

/-- A plain line lets the next one continue what it continues itself. -/
theorem targetAt_concat_of_plain {line : Text} (h : IsPlain line) :
    targetAt (lines ++ [line]) (lines.length + 1) = targetAt lines lines.length := by
  have hopener : openTag? (lines ++ [line]) (lines.length + 1) = openTag? lines lines.length := by
    rw [← openTag?_append (Nat.le_refl _) [line], openTag?, openTag?, opener?_concat, if_pos h,
      opener?_append (Nat.le_refl _)]
  rw [targetAt, targetAt, hopener]

/-- Behind a line that is not plain its own tag is continued, if it has one. -/
theorem targetAt_concat_of_not_plain {line : Text} (h : ¬ IsPlain line) :
    targetAt (lines ++ [line]) (lines.length + 1) =
      ((Tag.ofLine? line).map Tag.target).getD .general := by
  rw [targetAt, openTag?, opener?_concat, if_neg h, Option.bind_some, List.getElem?_concat_length,
    Option.bind_some]

/-- Behind an opener all lines are plain. -/
theorem exists_of_opener? {i : Nat} (h : opener? lines lines.length = some i) :
    ∃ front line run, lines = front ++ line :: run ∧ front.length = i ∧ ¬ IsPlain line ∧
      ∀ text ∈ run, IsPlain text := by
  induction lines using List.reverseRecOn with
  | nil => cases h
  | append_singleton lines last ih =>
      rw [List.length_append, List.length_singleton, opener?_concat] at h
      by_cases hlast : IsPlain last
      · rw [if_pos hlast] at h
        obtain ⟨front, line, run, rfl, hi, hline, hrun⟩ := ih h
        refine ⟨front, line, run ++ [last], by simp, hi, hline, ?_⟩
        intro text htext
        rcases List.mem_append.mp htext with htext | htext
        · exact hrun text htext
        · exact List.mem_singleton.mp htext ▸ hlast
      · rw [if_neg hlast] at h
        exact ⟨lines, last, [], rfl, Option.some.inj h, hlast, by simp⟩

end Openers

/-! ## One more line -/

/-- Lines that give nothing do not count. -/
theorem collect_append_of_nil {α : Type} {gives : Nat → Text → List α} {run : List Text}
    (h : ∀ text ∈ run, ∀ n, gives n text = []) (front : List Text) (line : Text) :
    collect gives (front ++ line :: run) = collect gives front ++ gives front.length line := by
  have hrun : (run.mapIdx fun n => gives (n + 1 + front.length)).flatten = [] := by
    rw [List.flatten_eq_nil_iff]
    intro texts htexts
    obtain ⟨n, hn, rfl⟩ := List.mem_mapIdx.mp htexts
    exact h _ (List.getElem_mem hn) _
  rw [collect, List.mapIdx_append, List.mapIdx_cons, List.flatten_append, List.flatten_cons, hrun,
    List.append_nil, Nat.zero_add, collect]

/-- What each place gives by the lines in front of it stays as it is when a line is added. -/
theorem collect_concat {α : Type} {before after : Nat → Text → List α} {lines : List Text}
    (h : ∀ n (hn : n < lines.length), after n lines[n] = before n lines[n]) (line : Text) :
    collect after (lines ++ [line]) = collect before lines ++ after lines.length line := by
  have hfront : lines.mapIdx after = lines.mapIdx before := List.mapIdx_eq_mapIdx_iff.mpr h
  rw [collect, List.mapIdx_concat, hfront, List.flatten_concat, collect]

section Concat

variable (lines : List Text) (line : Text)

theorem continuing_concat (i : Nat) :
    continuing (lines ++ [line]) i =
      continuing lines i ++
        if IsPlain line ∧ opener? lines lines.length = some i then [Tag.commentText line]
        else [] := by
  unfold continuing
  rw [collect_concat, opener?_append (Nat.le_refl _)]
  intro n hn
  rw [opener?_append (Nat.le_of_lt hn)]

/-- Only places further up can be openers. -/
theorem continuing_length : continuing lines lines.length = [] := by
  rw [continuing, collect, List.flatten_eq_nil_iff]
  intro texts htexts
  obtain ⟨n, hn, rfl⟩ := List.mem_mapIdx.mp htexts
  refine if_neg ?_
  rintro ⟨-, hopener⟩
  have hlt := opener?_lt hopener
  omega

theorem ne_nil_of_mem_continuing {i : Nat} : ∀ text ∈ continuing lines i, text ≠ [] := by
  intro text htext
  obtain ⟨texts, htexts, htext⟩ := List.mem_flatten.mp htext
  obtain ⟨n, hn, rfl⟩ := List.mem_mapIdx.mp htexts
  split at htext
  · rename_i hplain
    exact List.mem_singleton.mp htext ▸ hplain.1.2
  · cases htext

theorem general_concat :
    general (lines ++ [line]) = general lines ++ generalAt lines lines.length line := by
  have htarget (n : Nat) (hn : n ≤ lines.length) (text : Text) :
      generalAt (lines ++ [line]) n text = generalAt lines n text := by
    rw [generalAt, generalAt, targetAt, targetAt, openTag?_append hn]
  rw [← htarget _ (Nat.le_refl _)]
  exact collect_concat (fun n hn => htarget n (Nat.le_of_lt hn) _) line

theorem ne_nil_of_mem_general : ∀ text ∈ general lines, text ≠ [] := by
  intro text htext
  obtain ⟨texts, htexts, htext⟩ := List.mem_flatten.mp htext
  obtain ⟨n, hn, rfl⟩ := List.mem_mapIdx.mp htexts
  rw [generalAt] at htext
  split at htext
  · exact Tag.ne_nil_of_mem_generalTexts htext
  · split at htext
    · exact Text.ne_nil_of_mem_present htext
    · cases htext

variable {α : Type} (given? : List Text → Tag → Option α)

/-- A line that is not plain adds the entry of its tag, which nothing continues yet. -/
theorem entries_concat_of_not_plain {line : Text} (h : ¬ IsPlain line) :
    entries given? (lines ++ [line]) =
      entries given? lines ++ ((Tag.ofLine? line).bind (given? [])).toList := by
  have hcontinuing (i : Nat) : continuing (lines ++ [line]) i = continuing lines i := by
    rw [continuing_concat, if_neg fun hplain => h hplain.1, List.append_nil]
  have hentry (i : Nat) (text : Text) :
      entryAt given? (lines ++ [line]) i text = entryAt given? lines i text := by
    rw [entryAt, entryAt, hcontinuing]
  rw [entries, collect_concat fun n _ => hentry n _, hentry, entries, entryAt, continuing_length]

/-- A plain line without an opener is part of no entry. -/
theorem entries_concat_of_opener?_eq_none {line : Text} (h : IsPlain line)
    (hopener : opener? lines lines.length = none) :
    entries given? (lines ++ [line]) = entries given? lines := by
  have hentry (i : Nat) (text : Text) :
      entryAt given? (lines ++ [line]) i text = entryAt given? lines i text := by
    rw [entryAt, entryAt, continuing_concat, hopener, if_neg (by simp), List.append_nil]
  have hline : entryAt given? lines lines.length line = [] := by
    rw [entryAt, h.1]
    rfl
  rw [entries, collect_concat fun n _ => hentry n _, hentry, hline, List.append_nil, entries]

/-- A plain line continues what its opener has begun, which is the last entry if it is one. -/
theorem entries_concat_of_opener? {line : Text} (h : IsPlain line) {i : Nat}
    (hopener : opener? lines lines.length = some i) :
    ∃ before : List α,
      entries given? lines = before ++
        ((openTag? lines lines.length).bind (given? (continuing lines i))).toList ∧
      entries given? (lines ++ [line]) = before ++
        ((openTag? lines lines.length).bind
          (given? (continuing lines i ++ [Tag.commentText line]))).toList := by
  obtain ⟨front, text, run, hlines, hi, -, hrun⟩ := exists_of_opener? hopener
  have htag : openTag? lines lines.length = Tag.ofLine? text := by
    rw [openTag?, hopener, hlines, ← hi]
    simp
  -- behind the opener no line has an entry of its own
  have hnothing (gives : List Text) : ∀ other ∈ run ++ [line], ∀ n,
      entryAt given? gives n other = [] := by
    intro other hother n
    have hnone : Tag.ofLine? other = none := by
      rcases List.mem_append.mp hother with hother | hother
      · exact (hrun other hother).1
      · exact List.mem_singleton.mp hother ▸ h.1
    rw [entryAt, hnone]
    rfl
  -- and no place in front of the opener is continued by the new line
  have hfront : collect (entryAt given? (lines ++ [line])) front =
      collect (entryAt given? lines) front := by
    refine congrArg List.flatten (List.mapIdx_eq_mapIdx_iff.mpr fun n hn => ?_)
    have hne : ¬ (IsPlain line ∧ opener? lines lines.length = some n) := by
      rintro ⟨-, hother⟩
      have hin : i = n := Option.some.inj (hopener.symm.trans hother)
      omega
    rw [entryAt, entryAt, continuing_concat, if_neg hne, List.append_nil]
  refine ⟨collect (entryAt given? lines) front, ?_, ?_⟩
  · calc entries given? lines
        = collect (entryAt given? lines) (front ++ text :: run) :=
          congrArg (collect (entryAt given? lines)) hlines
      _ = collect (entryAt given? lines) front ++ entryAt given? lines front.length text :=
          collect_append_of_nil (fun other hother =>
            hnothing lines other (List.mem_append_left _ hother)) front text
      _ = _ := by rw [htag, hi, entryAt]
  · have hsplit : lines ++ [line] = front ++ text :: (run ++ [line]) := by
      rw [hlines, List.append_assoc, List.cons_append]
    calc entries given? (lines ++ [line])
        = collect (entryAt given? (lines ++ [line])) (front ++ text :: (run ++ [line])) :=
          congrArg (collect (entryAt given? (lines ++ [line]))) hsplit
      _ = collect (entryAt given? lines) front ++
            entryAt given? (lines ++ [line]) front.length text := by
          rw [collect_append_of_nil (hnothing (lines ++ [line])), hfront]
      _ = _ := by rw [htag, hi, entryAt, continuing_concat, if_pos ⟨h, hopener⟩]

/-- A plain line is added to the last entry of a kind if its opener began it, and else to none. -/
theorem entries_concat_of_plain {line : Text} (h : IsPlain line) {kind : Target}
    {addLine : α → Text → α} (hkind : IsEntry kind given? addLine) :
    entries given? (lines ++ [line]) =
      if targetAt lines lines.length = kind then
        mapLast (addLine · (Tag.commentText line)) (entries given? lines)
      else entries given? lines := by
  cases hopener : opener? lines lines.length with
  | none =>
      have htarget : targetAt lines lines.length ≠ kind := by
        rw [targetAt, openTag?, hopener]
        exact hkind.kind_ne.symm
      rw [if_neg htarget, entries_concat_of_opener?_eq_none lines given? h hopener]
  | some i =>
      obtain ⟨before, hold, hnew⟩ := entries_concat_of_opener? lines given? h hopener
      rw [hold, hnew]
      cases htag : openTag? lines lines.length with
      | none =>
          rw [targetAt, htag]
          exact (if_neg hkind.kind_ne.symm).symm
      | some tag =>
          have htarget : targetAt lines lines.length = tag.target := by rw [targetAt, htag]; rfl
          rw [htarget, Option.bind_some, Option.bind_some]
          by_cases heq : tag.target = kind
          · obtain ⟨_, -, hi⟩ := Option.bind_eq_some_iff.mp htag
            obtain ⟨opening, -, hread⟩ := Option.bind_eq_some_iff.mp hi
            obtain ⟨entry, hentry, hadded⟩ :=
              hkind.eq_some hread heq (ne_nil_of_mem_continuing lines) h.2
            rw [if_pos heq, hentry, hadded, Option.toList_some, Option.toList_some,
              mapLast_concat]
          · rw [if_neg heq, hkind.eq_none heq, hkind.eq_none heq]

end Concat

/-! ## Whole blocks -/

/-- What a block says, line by line: the entries with the texts that continue them, the last class
and the last type that is declared, and all other texts as the general description. -/
def described (lines : List Text) : Block where
  description := describeLines (general lines)
  classDecl := (lines.filterMap fun line => (Tag.ofLine? line).bind Tag.classDecl?).getLast?
  typeDecl := (lines.filterMap fun line => (Tag.ofLine? line).bind Tag.typeDecl?).getLast?
  fields := entries Tag.fieldDoc? lines
  params := entries Tag.paramEntry? lines
  returns := lines.filterMap fun line => (Tag.ofLine? line).bind Tag.returnEntry?
  nonStatic := lines.any fun line => Tag.ofLine? line = some .nonStatic

section Described

variable {lines : List Text} {line : Text}

/-- A line that is not plain adds what its tag says, and to no entry in front of it. -/
theorem described_concat_of_not_plain (h : ¬ IsPlain line) :
    described (lines ++ [line]) =
      { description := describeLines (general lines ++ generalAt lines lines.length line)
        classDecl := ((Tag.ofLine? line).bind Tag.classDecl?).or (described lines).classDecl
        typeDecl := ((Tag.ofLine? line).bind Tag.typeDecl?).or (described lines).typeDecl
        fields := (described lines).fields ++ ((Tag.ofLine? line).bind (Tag.fieldDoc? [])).toList
        params := (described lines).params ++ ((Tag.ofLine? line).bind (Tag.paramEntry? [])).toList
        returns := (described lines).returns ++ ((Tag.ofLine? line).bind Tag.returnEntry?).toList
        nonStatic := (described lines).nonStatic || Tag.ofLine? line = some .nonStatic } := by
  have hall {β : Type} (read? : Text → Option β) :
      (lines ++ [line]).filterMap read? = lines.filterMap read? ++ (read? line).toList := by
    rw [List.filterMap_append]
    cases hread : read? line <;> simp [hread]
  have hlast {β : Type} (given? : Option β) (front : List β) :
      (front ++ given?.toList).getLast? = given?.or front.getLast? := by
    cases given? <;> simp
  simp only [described, general_concat, hall, hlast, entries_concat_of_not_plain _ _ h,
    List.any_append, List.any_cons, List.any_nil, Bool.or_false]

/-- Texts that are added one by one are joined with those in front of them. -/
theorem describeLines_general_append {texts : List Text} (h : ∀ text ∈ texts, text ≠ []) :
    describeLines (general lines ++ texts) =
      texts.foldl (fun d text => some (continueDescription d text))
        (described lines).description := by
  have hall : ∀ text ∈ general lines ++ texts, text ≠ [] := by
    intro text htext
    rcases List.mem_append.mp htext with htext | htext
    · exact ne_nil_of_mem_general lines text htext
    · exact h text htext
  rw [← foldl_continueDescription_none hall, List.foldl_append,
    foldl_continueDescription_none (ne_nil_of_mem_general lines), described]

/-- A tag is added to what is described in front of it. -/
theorem described_concat_of_tag {tag : Tag} (h : Tag.ofLine? line = some tag) :
    described (lines ++ [line]) = ((described lines).addTag tag).1 := by
  have hplain : ¬ IsPlain line := not_isPlain_of_tag h
  have hgeneral : generalAt lines lines.length line = tag.generalTexts := by rw [generalAt, h]
  have hdescription := @describeLines_general_append lines tag.generalTexts
    fun _ => Tag.ne_nil_of_mem_generalTexts
  rw [described_concat_of_not_plain hplain, addTag_eq, hgeneral, hdescription, h]
  simp only [Option.bind_some, Option.some.injEq]

/-- A line with nothing behind its mark adds nothing. -/
theorem described_concat_of_blank (h : Tag.ofLine? line = none ∧ Tag.commentText line = []) :
    described (lines ++ [line]) = described lines := by
  have hplain : ¬ IsPlain line := fun hplain => hplain.2 h.2
  have hgeneral : generalAt lines lines.length line = [] := by
    rw [generalAt, h.1]
    simp [h.2, Text.present]
  rw [described_concat_of_not_plain hplain, hgeneral, h.1]
  simp [described]

/-- A plain line is added to what its opener lets it continue. -/
theorem described_concat_of_plain (h : IsPlain line) :
    described (lines ++ [line]) =
      (described lines).append (targetAt lines lines.length) (Tag.commentText line) := by
  have hall {β : Type} (read? : Tag → Option β) :
      ((lines ++ [line]).filterMap fun line => (Tag.ofLine? line).bind read?) =
        lines.filterMap fun line => (Tag.ofLine? line).bind read? := by
    rw [List.filterMap_append]
    simp [h.1]
  have hstatic : ((lines ++ [line]).any fun line => Tag.ofLine? line = some .nonStatic) =
      lines.any fun line => Tag.ofLine? line = some .nonStatic := by
    rw [List.any_append]
    simp [h.1]
  have hgeneral : generalAt lines lines.length line =
      if targetAt lines lines.length = .general then [Tag.commentText line] else [] := by
    rw [generalAt, h.1, Text.present_eq_singleton h.2]
  have hdescription : describeLines (general lines ++ [Tag.commentText line]) =
      some (continueDescription (describeLines (general lines)) (Tag.commentText line)) :=
    describeLines_concat (ne_nil_of_mem_general lines) h.2
  simp only [described, hall, hstatic, general_concat, hgeneral,
    entries_concat_of_plain _ _ h fieldDoc?_isEntry,
    entries_concat_of_plain _ _ h paramEntry?_isEntry]
  cases targetAt lines lines.length with
  | field => simp [append]
  | param => simp [append]
  | general => simp [append, appendGeneral, hdescription]

/-! ## The invariant of the reading -/

/-- What has been read of a block, and what the next line of plain text would continue. The
induction takes the lines from the last one, so that a line is added behind those described. -/
theorem foldl_addLine_eq (lines : List Text) :
    lines.foldl addLine ({}, .general) = (described lines, targetAt lines lines.length) := by
  induction lines using List.reverseRecOn with
  | nil => rfl
  | append_singleton lines line ih =>
      rw [List.foldl_append, ih, List.foldl_cons, List.foldl_nil, List.length_append,
        List.length_singleton]
      rcases line_cases line with ⟨tag, htag⟩ | hblank | hplain
      · have hplain : ¬ IsPlain line := not_isPlain_of_tag htag
        rw [addLine_of_tag htag, described_concat_of_tag htag, targetAt_concat_of_not_plain hplain,
          htag]
        show (described lines).addTag tag = (((described lines).addTag tag).1, tag.target)
        rw [addTag_eq]
      · have hplain : ¬ IsPlain line := fun hplain => hplain.2 hblank.2
        rw [addLine_of_blank hblank, described_concat_of_blank hblank,
          targetAt_concat_of_not_plain hplain, hblank.1]
        rfl
      · rw [addLine_of_plain hplain, described_concat_of_plain hplain,
          targetAt_concat_of_plain hplain]

end Described

/-- **Every text of a block is kept once, where its opener puts it.** Reading the lines in order
gives the block that is described line by line. -/
theorem ofLines_eq_described (lines : List Text) : ofLines lines = described lines :=
  congrArg Prod.fst (foldl_addLine_eq lines)

/-- A blank comment line ends what a parameter says. -/
example : (described ["---@param a number the".toList, "--- width".toList, "---".toList,
      "--- Scales it".toList]).params =
    [⟨"a".toList, "number".toList, some "the\nwidth".toList⟩] := by
  decide +kernel

end Block

end LuaReference
