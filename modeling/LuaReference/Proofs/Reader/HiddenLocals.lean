import LuaReference.Proofs.Reader.Step
import LuaReference.Proofs.Source.PathReading

set_option autoImplicit false

/-! # Hidden locals

A name that is local and no class is hidden: from then on nothing is documented under it, whatever
lines follow, unless a comment block declares a class of that name (`hiddenLocal_undocumented`).
Each guard of the reader looks at the first word of a path, and that word is what the invariant
`Keeps` speaks of. A local name that holds a dot is the first word of no path, so the class that a
function header names in full can bear it (`dotted_local_class`).
-/

namespace LuaReference.Reader

open Registry (Change)

/-! ## Changes that spare a name -/

/-- A change that documents nothing under a name: no field of the class of that name, no function
of a class whose first word it is, and no field of the namespace. -/
structure Spares (name : Text) (change : Change) : Prop where
  classFields : change.members ClassChange.fields name = []
  functions : ∀ other, firstWord other = name → change.members ClassChange.functions other = []
  field : change.field?.toList.filter (·.name = name) = []

/-- What a registry documents under a name does not grow by changes that spare it. -/
theorem membersOf_of_spares {name : Text} (registry : Registry) {changes : List Change}
    (h : ∀ change ∈ changes, Spares name change) :
    (registry.applyAll changes).membersOf ClassDoc.fields name =
        registry.membersOf ClassDoc.fields name ∧
      (∀ other, firstWord other = name →
        (registry.applyAll changes).membersOf ClassDoc.functions other =
          registry.membersOf ClassDoc.functions other) ∧
      (registry.applyAll changes).fields.filter (·.name = name) =
        registry.fields.filter (·.name = name) := by
  refine ⟨?_, fun other ho => ?_, ?_⟩
  · rw [Registry.membersOf_applyAll ClassChange.apply_fields (fun _ => rfl),
      List.flatMap_eq_nil_iff.mpr fun change hc => (h change hc).classFields, List.append_nil]
  · rw [Registry.membersOf_applyAll ClassChange.apply_functions (fun _ => rfl),
      List.flatMap_eq_nil_iff.mpr fun change hc => (h change hc).functions other ho,
      List.append_nil]
  · have hnone : (changes.filterMap Change.field?).filter (·.name = name) = [] := by
      rw [List.filter_eq_nil_iff]
      intro field hf
      obtain ⟨change, hc, hfield⟩ := List.mem_filterMap.mp hf
      have hspared := (h change hc).field
      rw [hfield, List.filter_eq_nil_iff] at hspared
      exact hspared field (by simp)
    rw [Registry.fields_applyAll, List.filter_append, hnone, List.append_nil]

theorem spares_of_class {name owner : Text} {change : ClassChange}
    (hf : owner = name → change.fields = [])
    (hg : firstWord owner = name → change.functions = []) :
    Spares name (.inClass owner change) := by
  refine ⟨?_, fun other ho => ?_, rfl⟩
  · rw [Change.members]
    split
    · exact hf ‹_›
    · rfl
  · rw [Change.members]
    split
    · rename_i h
      exact hg (h ▸ ho)
    · rfl

/-! ## The invariant -/

/-- A state that keeps a local name out of the documentation: the name is not the class of the
table that is being read, and unless it holds a dot there is no class of that name. -/
structure Keeps (name : Text) (reader : Reader) : Prop where
  isLocal : name ∈ reader.registry.locals
  table : ∀ table, reader.table ≠ some (name, table)
  noClass : '.' ∉ name → name ∉ reader.registry.names

/-- A name without a dot stays hidden. -/
theorem Keeps.isHidden {name : Text} {reader : Reader} (h : Keeps name reader)
    (hdot : '.' ∉ name) : reader.registry.isHidden name = true :=
  (Registry.isHidden_iff _ _).mpr ⟨h.isLocal, h.noClass hdot⟩

/-- A word that is not hidden is not the name. -/
theorem Keeps.ne_word {name word : Text} {reader : Reader} (h : Keeps name reader)
    (hw : Text.IsWord word) (visible : reader.registry.isHidden word = false) : word ≠ name := by
  rintro rfl
  rw [h.isHidden hw.not_mem_dot] at visible
  cases visible

/-- An owner whose first word is not hidden does not begin with the name. -/
theorem Keeps.ne_firstWord {name : Text} {path : List Text} {reader : Reader}
    (h : Keeps name reader) (hp : IsPath path)
    (visible : reader.registry.isHidden (path.headD []) = false) :
    firstWord (dotted path) ≠ name := by
  rw [firstWord_dotted hp]
  cases path with
  | nil => exact absurd rfl hp.ne_nil
  | cons word more => exact h.ne_word (hp.words word List.mem_cons_self) visible

/-- Nothing that a line writes documents the name, unless the line closes the block of a class of
that name. -/
theorem Keeps.spares {name : Text} {reader : Reader} {line : Text} {change : Change}
    (h : Keeps name reader) (hdecl : ∀ decl ∈ declared? reader line, decl.name ≠ name)
    (hw : Writes reader line change) : Spares name change := by
  cases hw with
  | addLocal isLocal target => exact ⟨rfl, fun _ _ => rfl, rfl⟩
  | describe declared => exact spares_of_class (fun _ => rfl) (fun _ => rfl)
  | listFields declared =>
      exact spares_of_class (fun hn => absurd hn (hdecl _ declared)) (fun _ => rfl)
  | openTable declared =>
      exact spares_of_class (fun hn => absurd hn (hdecl _ declared)) (fun _ => rfl)
  | @tableLine owner table inside =>
      exact spares_of_class (fun hn => absurd (hn ▸ inside) (h.table table)) (fun _ => rfl)
  | @classField owner member decl typed target visible =>
      have hword := (Declaration.isPath_of_target? target).words owner List.mem_cons_self
      exact spares_of_class (fun hn => absurd hn (h.ne_word hword visible)) (fun _ => rfl)
  | @field member decl typed target visible =>
      have hword := (Declaration.isPath_of_target? target).words member List.mem_cons_self
      have hne : member ≠ name := h.ne_word hword visible
      refine ⟨rfl, fun _ _ => rfl, ?_⟩
      simp [Change.field?, FieldDoc.finish, hne]
  | classFunction found owned visible =>
      have hpath := Declaration.isPath_of_headerOf? found owned
      exact spares_of_class (fun _ => rfl) (fun hn => absurd hn (h.ne_firstWord hpath visible))
  | function found owned => exact ⟨rfl, fun _ _ => rfl, rfl⟩

/-- Whether a line holds a function header with an owner of that name. -/
def HeaderOf (name line : Text) : Prop :=
  ∃ header owner, Declaration.headerOf? (Text.trim line) = some header ∧
    header.owner = some owner ∧ dotted owner.path = name

/-- Only a function header mentions a class of the name, and only if the name holds a dot. -/
theorem Keeps.mentions {name : Text} {reader : Reader} {line : Text} {change : Change}
    (h : Keeps name reader) (hdecl : ∀ decl ∈ declared? reader line, decl.name ≠ name)
    (hw : Writes reader line change) (hm : change.className? = some name) :
    '.' ∈ name ∧ HeaderOf name line := by
  cases hw with
  | addLocal isLocal target => cases hm
  | describe declared => exact absurd (Option.some.inj hm) (hdecl _ declared)
  | listFields declared => exact absurd (Option.some.inj hm) (hdecl _ declared)
  | openTable declared => exact absurd (Option.some.inj hm) (hdecl _ declared)
  | @tableLine owner table inside =>
      obtain rfl : owner = name := Option.some.inj hm
      exact absurd inside (h.table table)
  | @classField owner member decl typed target visible =>
      have hword := (Declaration.isPath_of_target? target).words owner List.mem_cons_self
      exact absurd (Option.some.inj hm) (h.ne_word hword visible)
  | field typed target visible => cases hm
  | @classFunction header owner returnsValue found owned visible =>
      have hpath := Declaration.isPath_of_headerOf? found owned
      obtain hname : dotted owner.path = name := Option.some.inj hm
      refine ⟨?_, header, owner, found, owned, hname⟩
      by_contra hdot
      -- without a dot the name is its own first word, which the guard has let pass
      refine h.ne_firstWord hpath visible ?_
      rw [hname, firstWord_of_not_mem hdot]
  | function found owned => cases hm

/-- The invariant goes on over every line that closes no block of a class of the name. -/
theorem Keeps.step {name : Text} {reader : Reader} {line : Text} (h : Keeps name reader)
    (hdecl : ∀ decl ∈ declared? reader line, decl.name ≠ name) (rest : List Text) :
    Keeps name (step reader line rest) := by
  obtain ⟨changes, hchanges, hwrites⟩ := writes_step reader line rest
  constructor
  · exact (writes_step reader line rest).mem_locals h.isLocal
  · intro table htable
    obtain ⟨-, hfrom⟩ := table_step htable
    rcases hfrom with ⟨before, hbefore⟩ | ⟨decl, hd, hname⟩
    · exact h.table before hbefore
    · exact hdecl decl hd hname
  · intro hdot hmem
    rw [hchanges, Registry.mem_names_applyAll] at hmem
    rcases hmem with ⟨change, hc, hm⟩ | hmem
    · exact hdot (h.mentions hdecl (hwrites change hc) hm).1
    · exact h.noClass hdot hmem

/-- A name that is hidden in a state that is reached is kept from there on. -/
theorem keeps_of_isHidden {name : Text} {lines rest : List Text}
    (h : (advance {} lines rest).registry.isHidden name = true) :
    Keeps name (advance {} lines rest) := by
  obtain ⟨hlocal, hclass⟩ := (Registry.isHidden_iff _ _).mp h
  exact ⟨hlocal, fun table ht => hclass (table_known lines rest name table ht), fun _ => hclass⟩

theorem mem_of_mem_visits {reader : Reader} {lines rest : List Text} {visit : Reader × Text}
    (h : visit ∈ visits reader lines rest) : visit.2 ∈ lines := by
  induction lines generalizing reader with
  | nil => simp [visits] at h
  | cons line more ih =>
      rcases List.mem_cons.mp h with rfl | h
      · exact List.mem_cons_self
      · exact List.mem_cons_of_mem _ (ih h)

/-- The changes of a run that keeps the name all spare it, and one that mentions a class of the
name is made by a function header. -/
theorem Keeps.changes {name : Text} {reader : Reader} {lines rest : List Text}
    (h : Keeps name reader)
    (undeclared : ∀ visit ∈ visits reader lines rest,
      ∀ decl ∈ declared? visit.1 visit.2, decl.name ≠ name) :
    Registry.ChangesBy (fun change => Spares name change ∧
        (change.className? = some name → '.' ∈ name ∧ ∃ line ∈ lines, HeaderOf name line))
      reader.registry (advance reader lines rest).registry := by
  obtain ⟨hkeeps, -⟩ := invariant_of_step (Keeps name) h fun visit hv behind hkeep =>
    hkeep.step (undeclared visit hv) behind
  refine writes_advance _ fun visit hv change hw => ?_
  have hkeep := hkeeps visit hv
  have hdecl := undeclared visit hv
  refine ⟨hkeep.spares hdecl hw, fun hm => ?_⟩
  obtain ⟨hdot, hheader⟩ := hkeep.mentions hdecl hw hm
  exact ⟨hdot, visit.2, mem_of_mem_visits hv, hheader⟩

/-- **A hidden local is not documented.** Let a name be hidden once some lines are read, and let
none of the next lines close the block of a class of that name. Then these lines add no function
to any class whose first word is the name, no field to the class of the name, and no field of that
name to the namespace. No class of the name is made either, except that a name with a dot in it
becomes a class where a function header has it for its owner. -/
theorem hiddenLocal_undocumented {before lines rest : List Text} {name : Text}
    (hidden : (advance {} before (lines ++ rest)).registry.isHidden name = true)
    (undeclared : ∀ visit ∈ visits (advance {} before (lines ++ rest)) lines rest,
      ∀ decl ∈ declared? visit.1 visit.2, decl.name ≠ name) :
    let old := (advance {} before (lines ++ rest)).registry
    let new := (advance {} (before ++ lines) rest).registry
    (name ∈ new.names → '.' ∈ name ∧ ∃ line ∈ lines, HeaderOf name line) ∧
      (∀ other, firstWord other = name →
        new.membersOf ClassDoc.functions other = old.membersOf ClassDoc.functions other) ∧
      new.membersOf ClassDoc.fields name = old.membersOf ClassDoc.fields name ∧
      new.fields.filter (·.name = name) = old.fields.filter (·.name = name) := by
  intro old new
  have hnone : name ∉ old.names := ((Registry.isHidden_iff _ _).mp hidden).2
  obtain ⟨changes, hchanges, hall⟩ := (keeps_of_isHidden hidden).changes undeclared
  have hnew : new = old.applyAll changes := by
    show (advance {} (before ++ lines) rest).registry = _
    rw [advance_append, hchanges]
  obtain ⟨hfields, hfunctions, hnamespace⟩ :=
    membersOf_of_spares old fun change hc => (hall change hc).1
  rw [hnew]
  refine ⟨fun hmem => ?_, hfunctions, hfields, hnamespace⟩
  rcases (Registry.mem_names_applyAll old changes name).mp hmem with ⟨change, hc, hm⟩ | hmem
  · exact (hall change hc).2 hm
  · exact absurd hmem hnone

/-- A line that makes a name local. -/
def localLine : Text := "local vault = open()".toList

/-- Lines that would document the local name as a class with a function and as a field. -/
def laterLines : List Text :=
  ["function vault.door.lock() end".toList, "---@type number".toList, "vault.size = 1".toList,
    "---@type number".toList, "vault = 2".toList]

/-- The members of a hidden local and the local itself stay undocumented. -/
theorem vault_undocumented :
    (advance {} [localLine] (laterLines ++ [])).registry.isHidden "vault".toList = true ∧
      (∀ visit ∈ visits (advance {} [localLine] (laterLines ++ [])) laterLines [],
        ∀ decl ∈ declared? visit.1 visit.2, decl.name ≠ "vault".toList) ∧
      let new := (advance {} ([localLine] ++ laterLines) []).registry
      "vault".toList ∉ new.names ∧
        new.membersOf ClassDoc.functions "vault.door".toList = [] ∧
        new.membersOf ClassDoc.fields "vault".toList = [] ∧
        new.fields.filter (·.name = "vault".toList) = [] := by
  have hidden : (advance {} [localLine] (laterLines ++ [])).registry.isHidden
      "vault".toList = true := by decide +kernel
  have undeclared : ∀ visit ∈ visits (advance {} [localLine] (laterLines ++ [])) laterLines [],
      ∀ decl ∈ declared? visit.1 visit.2, decl.name ≠ "vault".toList := by decide +kernel
  obtain ⟨hclass, hfunctions, hfields, hnamespace⟩ := hiddenLocal_undocumented hidden undeclared
  refine ⟨hidden, undeclared, fun hmem => ?_, ?_, ?_, ?_⟩
  · exact absurd (hclass hmem).1 (by decide)
  · exact (hfunctions "vault.door".toList (by decide)).trans (by decide +kernel)
  · exact hfields.trans (by decide +kernel)
  · exact hnamespace.trans (by decide +kernel)

/-- A local declaration may record a path, and then a function header makes a class of that name,
although the name is hidden and no block declares the class. -/
theorem dotted_local_class :
    let before := ["local x; a.b = \x7b\x7d".toList]
    let lines := ["function a.b.f() end".toList]
    (advance {} before lines).registry.isHidden "a.b".toList = true ∧
      (∀ visit ∈ visits (advance {} before lines) lines [],
        declared? visit.1 visit.2 = none) ∧
      "a.b".toList ∈ (advance {} (before ++ lines) []).registry.names := by
  decide +kernel

end LuaReference.Reader
