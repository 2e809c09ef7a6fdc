import LuaReference.Proofs.Reader.Step
import LuaReference.Proofs.Source.AssignmentSearch

set_option autoImplicit false

/-! # The names that a local declaration records

A line that declares something local records the first path on it that an equals sign follows
(`mem_locals_step`). Of a list of names that is the last one if something is assigned to the names,
and none if nothing is (`LocalNames.target?_text`). On the line of a local function it is the first
path that the body assigns to, be it local or not (`LocalFunction.target?_text`). So the other names
of a list are not hidden, and what the body of a local function assigns to is
(`mem_locals_step_localLine`).
-/

namespace LuaReference

/-! ## Written local declarations -/

/-- A name in a list of names, with the blanks around it. -/
structure ListedName where
  before : Text := []
  name : Text
  after : Text := []

namespace ListedName

def text (listed : ListedName) : Text := listed.before ++ (listed.name ++ listed.after)

structure IsWritten (listed : ListedName) : Prop where
  before : ∀ c ∈ listed.before, isBlank c = true
  name : Text.IsWord listed.name
  after : ∀ c ∈ listed.after, isBlank c = true

theorem not_mem_text {listed : ListedName} (h : listed.IsWritten) : '=' ∉ listed.text := by
  rw [text, List.mem_append, List.mem_append, not_or, not_or]
  exact ⟨Text.not_mem_blanks h.before (by decide), h.name.not_mem (by decide),
    Text.not_mem_blanks h.after (by decide)⟩

end ListedName

/-- A local declaration of names, with what is assigned to them. -/
structure LocalNames where
  /-- The blanks behind the word `local`. -/
  gap : Text := [' ']
  /-- The names that a comma follows. -/
  names : List ListedName := []
  last : ListedName
  value : Option Text := none

namespace LocalNames

/-- What is assigned behind the equals sign; nothing for an absent value. -/
def valueText : Option Text → Text
  | none => []
  | some value => '=' :: value

/-- The line of the declaration. -/
def text (declaration : LocalNames) : Text :=
  "local".toList ++ (declaration.gap ++ (declaration.names.flatMap (·.text ++ [',']) ++
    (declaration.last.text ++ valueText declaration.value)))

/-- The names that are declared. -/
def declared (declaration : LocalNames) : List Text :=
  declaration.names.map (·.name) ++ [declaration.last.name]

/-- What makes a declaration one that can be written. -/
structure IsWritten (declaration : LocalNames) : Prop where
  gap_ne_nil : declaration.gap ≠ []
  gap : ∀ c ∈ declaration.gap, isBlank c = true
  names : ∀ listed ∈ declaration.names, listed.IsWritten
  last : declaration.last.IsWritten
  value : ∀ value ∈ declaration.value, ∀ c ∈ value.head?, c ≠ '='

end LocalNames

/-- A local function on a line, with as much of its body as stands there. -/
structure LocalFunction where
  /-- The blanks behind the word `local`. -/
  gap : Text := [' ']
  header : FunctionHeader
  before : Text := [' ']
  after : Text := []
  body : Text

namespace LocalFunction

/-- The line of the function. -/
def text (function : LocalFunction) : Text :=
  "local".toList ++ (function.gap ++
    (Declaration.headerText function.header function.before function.after ++ function.body))

/-- What makes a function one that can be written. -/
structure IsWritten (function : LocalFunction) : Prop where
  gap_ne_nil : function.gap ≠ []
  gap : ∀ c ∈ function.gap, isBlank c = true
  header : function.header.IsWritten
  params : '=' ∉ function.header.params
  before : ∀ c ∈ function.before, isBlank c = true
  after : ∀ c ∈ function.after, isBlank c = true

end LocalFunction

section Written

open Declaration

theorem Declaration.isLocal_keyword {gap : Text} (hne : gap ≠ [])
    (hgap : ∀ c ∈ gap, isBlank c = true) (rest : Text) :
    isLocal ("local".toList ++ (gap ++ rest)) = true := by
  cases gap with
  | nil => exact absurd rfl hne
  | cons blank gap =>
      exact (Tag.isSome_afterKeyword? _ _).mpr
        ⟨blank, gap ++ rest, hgap blank List.mem_cons_self, rfl⟩

/-- The last name is the one that something is assigned to. -/
theorem target?_last {listed : ListedName} (h : listed.IsWritten) {value : Option Text}
    (hv : ∀ text ∈ value, ∀ c ∈ text.head?, c ≠ '=') :
    target? (listed.text ++ LocalNames.valueText value) =
      if value.isSome then some [listed.name] else none := by
  cases value with
  | none =>
      rw [LocalNames.valueText, List.append_nil, target?_eq_none (ListedName.not_mem_text h)]
      rfl
  | some text =>
      have hpath : IsPath [listed.name] := ⟨by simp, by simpa using h.name⟩
      have htext : listed.text ++ LocalNames.valueText (some text) =
          listed.before ++ (assignmentText [listed.name] listed.after ++ text) := by
        simp [ListedName.text, LocalNames.valueText, assignmentText, dotted, Text.join]
      rw [htext, target?_append_left fun c hc => isWord_eq_false_of_isBlank (h.before c hc),
        target?_of_assignment? (assignment?_append hpath h.after (hv text rfl))]
      rfl

/-- **Of a list of names the last one is found**, if something is assigned to the names. -/
theorem LocalNames.target?_text {declaration : LocalNames} (h : declaration.IsWritten) :
    target? declaration.text =
      if declaration.value.isSome then some [declaration.last.name] else none := by
  obtain ⟨gap, names, last, value⟩ := declaration
  rw [← target?_last h.last h.value]
  rcases List.eq_nil_or_concat names with rfl | ⟨front, listed, rfl⟩
  · -- the word `local` and blanks stand in front of the name
    have hblanks : ∀ c ∈ gap ++ last.before, isBlank c = true := fun c hc =>
      (List.mem_append.mp hc).elim (h.gap c) (h.last.before c)
    have hword : Text.startsWord (last.name ++ (last.after ++ valueText value)) = true :=
      h.last.name.startsWord _
    have htext : LocalNames.text ⟨gap, [], last, value⟩ = "local".toList ++
        ((gap ++ last.before) ++ (last.name ++ (last.after ++ valueText value))) := by
      unfold LocalNames.text ListedName.text
      simp only [List.flatMap_nil, List.nil_append, List.append_assoc]
    have hlast : last.text ++ valueText value =
        last.before ++ (last.name ++ (last.after ++ valueText value)) := by
      simp [ListedName.text]
    rw [htext, target?_append_word (by decide) hblanks (by simp [h.gap_ne_nil]) hword, hlast,
      target?_append_left fun c hc => isWord_eq_false_of_isBlank (h.last.before c hc)]
  · -- a comma stands in front of the last name
    have htext : LocalNames.text ⟨gap, front ++ [listed], last, value⟩ =
        ("local".toList ++ (gap ++ (front.flatMap (·.text ++ [',']) ++ listed.text))) ++
          ',' :: (last.text ++ valueText value) := by
      unfold LocalNames.text
      simp only [List.flatMap_append, List.flatMap_singleton, List.append_assoc,
        List.singleton_append]
    have hnames : ∀ other ∈ front ++ [listed], '=' ∉ other.text := by
      intro other ho
      exact ListedName.not_mem_text (h.names other (by simpa using ho))
    have hfront : '=' ∉ "local".toList ++
        (gap ++ (front.flatMap (·.text ++ [',']) ++ listed.text)) := by
      simp only [List.mem_append, List.mem_flatMap, not_or, not_exists, not_and]
      refine ⟨by decide, Text.not_mem_blanks h.gap (by decide),
        fun other ho => ⟨?_, by decide⟩, ?_⟩
      · exact hnames other (List.mem_append_left _ ho)
      · exact hnames listed (by simp)
    rw [List.concat_eq_append, htext]
    exact target?_append_cons hfront (by decide) (by decide) (by decide) (by decide) _

/-- **Behind the header of a local function the first assignment is found.** -/
theorem LocalFunction.target?_text {function : LocalFunction} (h : function.IsWritten) :
    target? function.text = target? function.body := by
  have hblank {blanks : Text} (hb : ∀ c ∈ blanks, isBlank c = true) : '=' ∉ blanks :=
    Text.not_mem_blanks hb (by decide)
  have hfront : '=' ∉ "local".toList ++ (function.gap ++
      headerFront function.header function.before function.after) := by
    unfold headerFront
    simp only [List.mem_append, List.mem_cons, not_or]
    exact ⟨by decide, hblank h.gap, by decide, hblank h.before,
      not_mem_ownerText h.header.owner (by decide) (by decide) (by decide),
      h.header.name.not_mem (by decide), hblank h.after, by decide, h.params⟩
  have htext : function.text = ("local".toList ++ (function.gap ++
      headerFront function.header function.before function.after)) ++ ')' :: function.body := by
    unfold LocalFunction.text
    rw [headerText_append]
    simp only [List.append_assoc]
  rw [htext]
  exact target?_append_cons hfront (by decide) (by decide) (by decide) (by decide) _

end Written

namespace Reader

open Registry (Change ChangesBy)

/-- Outside of enum tables a line records the path that it assigns to if it declares something
local, and no other name. -/
theorem mem_locals_step {reader : Reader} (ht : reader.table = none) (line : Text)
    (rest : List Text) (name : Text) :
    name ∈ (step reader line rest).registry.locals ↔
      name ∈ reader.registry.locals ∨ Declaration.isLocal (Text.trim line) = true ∧
        ∃ path, Declaration.target? (Text.trim line) = some path ∧ name = dotted path := by
  constructor
  · intro hmem
    obtain ⟨changes, hchanges, hwrites⟩ := writes_step reader line rest
    rw [hchanges, Registry.mem_locals_applyAll] at hmem
    rcases hmem with hadded | hknown
    · cases hwrites _ hadded with
      | addLocal isLocal target => exact .inr ⟨isLocal, _, target, rfl⟩
    · exact .inl hknown
  · intro hmem
    have hrecorded : name ∈ (recordLocal reader.registry (Text.trim line)).locals := by
      rcases hmem with hknown | ⟨hlocal, path, htarget, rfl⟩
      · exact ChangesBy.mem_locals writes_recordLocal hknown
      · rw [recordLocal, if_pos hlocal, htarget]
        exact (Registry.mem_locals_apply _ (.addLocal _) _).mpr (.inl rfl)
    rw [step, ht]
    exact (writes_plainLine ht rest).mem_locals hrecorded

/-- **What a local line records.** Of a list of names it is the last one, if something is assigned
to the names, and none otherwise. So all names that are declared are local behind the line, and no
others than before, exactly if each of them was local in front of it, but for a last one that
something is assigned to. On the line of a local function it is the first path that the body
assigns to, whatever the function is called. -/
theorem mem_locals_step_localLine {reader : Reader} (ht : reader.table = none) {line : Text}
    (rest : List Text) :
    let locals := (step reader line rest).registry.locals
    (∀ declaration : LocalNames, declaration.IsWritten → Text.trim line = declaration.text →
      (∀ name, name ∈ locals ↔ name ∈ reader.registry.locals ∨
        declaration.value.isSome = true ∧ name = declaration.last.name) ∧
      ((∀ name, name ∈ locals ↔ name ∈ reader.registry.locals ∨ name ∈ declaration.declared) ↔
        ∀ name ∈ declaration.declared, name ∈ reader.registry.locals ∨
          declaration.value.isSome = true ∧ name = declaration.last.name)) ∧
    ∀ function : LocalFunction, function.IsWritten → Text.trim line = function.text →
      ∀ name, name ∈ locals ↔ name ∈ reader.registry.locals ∨
        ∃ path, Declaration.target? function.body = some path ∧ name = dotted path := by
  intro locals
  refine ⟨fun declaration h hline => ?_, fun function h hline name => ?_⟩
  · have hlocal : Declaration.isLocal (Text.trim line) = true := by
      rw [hline]
      exact Declaration.isLocal_keyword h.gap_ne_nil h.gap _
    have hdotted : dotted [declaration.last.name] = declaration.last.name := rfl
    have hlocals (name : Text) : name ∈ locals ↔ name ∈ reader.registry.locals ∨
        declaration.value.isSome = true ∧ name = declaration.last.name := by
      rw [mem_locals_step ht, and_iff_right hlocal, hline, LocalNames.target?_text h]
      cases declaration.value with
      | none => simp
      | some value => simp [hdotted]
    refine ⟨hlocals, fun hall name hname => (hlocals name).mp ((hall name).mpr (.inr hname)),
      fun hall name => ?_⟩
    rw [hlocals]
    have hlast : declaration.last.name ∈ declaration.declared := by simp [LocalNames.declared]
    constructor
    · rintro (hknown | ⟨-, rfl⟩)
      · exact .inl hknown
      · exact .inr hlast
    · rintro (hknown | hdeclared)
      · exact .inl hknown
      · exact hall name hdeclared
  · have hlocal : Declaration.isLocal (Text.trim line) = true := by
      rw [hline]
      exact Declaration.isLocal_keyword h.gap_ne_nil h.gap _
    rw [mem_locals_step ht, and_iff_right hlocal, hline, LocalFunction.target?_text h]

/-- Two names with values. -/
def pairNames : LocalNames where
  names := [{ name := "first".toList }]
  last := { before := [' '], name := "second".toList, after := [' '] }
  value := some " 1, 2".toList

/-- A local function that assigns to a member of a table that is not local. -/
def setupFunction : LocalFunction where
  header := ⟨none, "setup".toList, "path".toList⟩
  body := " Config.path = path end".toList

theorem pairNames_isWritten : pairNames.IsWritten where
  gap_ne_nil := by decide
  gap := by decide
  names := by
    intro listed hl
    obtain rfl := List.mem_singleton.mp hl
    exact ⟨by decide, ⟨by decide, by decide⟩, by decide⟩
  last := ⟨by decide, ⟨by decide, by decide⟩, by decide⟩
  value := by
    intro value hv
    obtain rfl := Option.some.inj hv
    decide

theorem setupFunction_isWritten : setupFunction.IsWritten where
  gap_ne_nil := by decide
  gap := by decide
  header := ⟨by simp [setupFunction], ⟨by decide, by decide⟩, by decide⟩
  params := by decide
  before := by decide
  after := by decide

theorem locals_step_pairNames :
    pairNames.IsWritten ∧ setupFunction.IsWritten ∧
      Text.trim "  local first, second = 1, 2".toList = pairNames.text ∧
      Text.trim "local function setup(path) Config.path = path end".toList = setupFunction.text ∧
      (∀ name, name ∈ (step {} "  local first, second = 1, 2".toList []).registry.locals ↔
        name = "second".toList) ∧
      ∀ name, name ∈ (step {} "local function setup(path) Config.path = path end".toList
        []).registry.locals ↔ name = "Config.path".toList := by
  have htable : ({} : Reader).table = none := rfl
  have hpair : Text.trim "  local first, second = 1, 2".toList = pairNames.text := by
    decide +kernel
  have hsetup : Text.trim "local function setup(path) Config.path = path end".toList =
      setupFunction.text := by
    decide +kernel
  have htarget : Declaration.target? setupFunction.body =
      some ["Config".toList, "path".toList] := by
    decide +kernel
  have hdotted : dotted ["Config".toList, "path".toList] = "Config.path".toList := by decide
  refine ⟨pairNames_isWritten, setupFunction_isWritten, hpair, hsetup, fun name => ?_,
    fun name => ?_⟩
  · have hlocals := ((mem_locals_step_localLine htable []).1 pairNames pairNames_isWritten hpair).1
    rw [hlocals name]
    simp [pairNames]
  · have hlocals :=
      (mem_locals_step_localLine htable []).2 setupFunction setupFunction_isWritten hsetup
    have hnone : name ∉ ({} : Reader).registry.locals := List.not_mem_nil
    rw [hlocals name, htarget, or_iff_right hnone]
    constructor
    · rintro ⟨path, hpath, rfl⟩
      obtain rfl := Option.some.inj hpath
      exact hdotted
    · rintro rfl
      exact ⟨_, rfl, hdotted.symm⟩

/-- Members of the first one of two local names are documented, and so are those of a local name
without a value, while what a local function assigns to is hidden. -/
theorem localLines_misrecorded :
    (step {} "local a, b = load()".toList []).registry.locals = ["b".toList] ∧
      parse "local a, b = load()\nfunction a.f() end".toList defaultNamespace =
        .ok ⟨[⟨defaultNamespace,
          [⟨"a".toList, none, [], [⟨"f".toList, true, none, [], []⟩]⟩], [], []⟩]⟩ ∧
      parse "local c\nfunction c.f() end".toList defaultNamespace =
        .ok ⟨[⟨defaultNamespace,
          [⟨"c".toList, none, [], [⟨"f".toList, true, none, [], []⟩]⟩], [], []⟩]⟩ ∧
      parse "local function g() T = load() end\nfunction T.f() end".toList defaultNamespace =
        .ok ⟨[⟨defaultNamespace, [], [], []⟩]⟩ := by
  decide +kernel

end Reader

end LuaReference
