import LuaReference.Files.Glob
import LuaReference.Proofs.Files.Writing
import LuaReference.Proofs.Text.Run
import Mathlib.Data.List.Nodup

set_option autoImplicit false

/-! # Ways down a file tree

A path whose components are names leads down: from a place it leads to the place with the names
behind it, if it leads anywhere (`eq_of_foldlM_follow`). So what stands behind a directory in a path
is the way from the place of the directory (`eq_of_locate_join`).

The entries of a directory that a component of a pattern leads to are such ways, and no two of them
are the same (`nodup_way_entries`). Only the component that stands for any way down leads to ways of
different lengths (`length_way_of_mem_entries`).
-/

namespace LuaReference

/-! ## Separated parts -/

namespace Text

variable {mark : Char}

theorem not_mem_of_mem_splitAtEach {text part : Text} (h : part ∈ splitAtEach mark text) :
    mark ∉ part := by
  induction text generalizing part with
  | nil =>
      rw [splitAtEach, List.mem_singleton] at h
      exact h ▸ List.not_mem_nil
  | cons c rest ih =>
      rw [splitAtEach] at h
      split at h
      · rcases List.mem_cons.mp h with rfl | h
        · exact List.not_mem_nil
        · exact ih h
      · rename_i hc
        split at h
        · rw [List.mem_singleton.mp h, List.mem_singleton]
          exact Ne.symm hc
        · rename_i first more hrest
          rcases List.mem_cons.mp h with rfl | h
          · rw [List.mem_cons, not_or]
            exact ⟨Ne.symm hc, ih (hrest ▸ List.mem_cons_self)⟩
          · exact ih (hrest ▸ List.mem_cons_of_mem first h)

/-- Each separator divides the parts in front of it from those behind it. -/
theorem splitAtEach_append_cons (front rest : Text) :
    splitAtEach mark (front ++ mark :: rest) = splitAtEach mark front ++ splitAtEach mark rest := by
  induction front with
  | nil => simp [splitAtEach]
  | cons c front ih =>
      rw [List.cons_append, splitAtEach, splitAtEach, ih]
      split
      · rfl
      · cases hparts : splitAtEach mark front with
        | nil => exact absurd hparts (FileTree.splitAtEach_ne_nil mark front)
        | cons part more => rfl

/-- Parts that are joined are found again. -/
theorem splitAtEach_join {parts : List Text} (hne : parts ≠ [])
    (h : ∀ part ∈ parts, mark ∉ part) : splitAtEach mark (join [mark] parts) = parts := by
  induction parts with
  | nil => exact absurd rfl hne
  | cons part more ih =>
      have hpart : ∀ c ∈ part, c ≠ mark := fun c hc heq =>
        h part List.mem_cons_self (heq ▸ hc)
      cases more with
      | nil => exact splitAtEach_part hpart
      | cons next more =>
          have hrest := ih (List.cons_ne_nil _ _) fun other ho =>
            h other (List.mem_cons_of_mem part ho)
          show splitAtEach mark (part ++ [mark] ++ join [mark] (next :: more)) = _
          rw [List.append_assoc, List.singleton_append, splitAtEach_append hpart, hrest]

end Text

/-! ## Following names -/

namespace FileTree

/-- Whether a component of a path leads on from a directory. -/
def leadsOn (component : Text) : Bool := component ≠ [] && component ≠ ['.']

/-- The way that a path leads from where it starts. -/
def way (path : Text) : Place := (Text.splitAtEach '/' path).filter leadsOn

/-- A path that leads down: it is relative, and it never goes back. -/
structure LeadsDown (path : Text) : Prop where
  relative : Path.isAbsolute path = false
  onward : ['.', '.'] ∉ Text.splitAtEach '/' path

variable {tree : FileTree} {start place : Place}

theorem eq_of_follow {component : Text} (h : tree.follow start component = .ok place)
    (honward : component ≠ ['.', '.']) : place = start ++ [component].filter leadsOn := by
  rw [follow] at h
  split_ifs at h with hopen hsame hlength hsome
  · obtain rfl := Except.ok.inj h
    rcases Bool.or_eq_true _ _ ▸ hsame with hnil | hdot
    · simp [of_decide_eq_true hnil, leadsOn]
    · simp [of_decide_eq_true hdot, leadsOn]
  · obtain rfl := Except.ok.inj h
    have hleads : leadsOn component = true := by
      simpa [leadsOn] using hsame
    rw [List.filter_cons_of_pos hleads, List.filter_nil]

theorem eq_of_foldlM_follow {components : List Text}
    (h : components.foldlM tree.follow start = .ok place) (honward : ['.', '.'] ∉ components) :
    place = start ++ components.filter leadsOn := by
  induction components generalizing start with
  | nil =>
      obtain rfl := Except.ok.inj h
      exact (List.append_nil _).symm
  | cons component components ih =>
      rw [List.mem_cons, not_or] at honward
      rw [List.foldlM_cons] at h
      obtain ⟨middle, hfirst, hrest⟩ := bind_eq_ok h
      rw [ih hrest honward.2, eq_of_follow hfirst (Ne.symm honward.1), List.append_assoc,
        ← List.filter_append, List.singleton_append]

/-- The place of a path is reached from where it starts, over its components. -/
theorem foldlM_of_locate {path : Text} (h : tree.locate path = .ok place) :
    path ≠ [] ∧ (Text.splitAtEach '/' path).foldlM tree.follow (tree.start path) = .ok place := by
  rw [locate] at h
  split_ifs at h with hnull hempty hlength
  exact ⟨by simpa using hempty, h⟩

/-- What a path leads to behind a directory is reached from the place of the directory. -/
theorem foldlM_of_locate_join {directory path : Text} {middle : Place}
    (hdirectory : tree.locate directory = .ok middle) (hpath : Path.isAbsolute path = false)
    (h : tree.locate (Path.join directory path) = .ok place) :
    (Text.splitAtEach '/' path).foldlM tree.follow middle = .ok place := by
  obtain ⟨hne, hmiddle⟩ := foldlM_of_locate hdirectory
  obtain ⟨-, hplace⟩ := foldlM_of_locate h
  have hempty : directory.isEmpty = false := by simpa using hne
  have hstart (rest : Text) : tree.start (directory ++ rest) = tree.start directory := by
    cases directory with
    | nil => exact absurd rfl hne
    | cons c directory => rfl
  rw [Path.join, hpath, hempty, if_neg (by simp)] at hplace
  split at hplace
  · -- the slash that the directory ends in leads to the directory itself
    rename_i hslash
    obtain ⟨front, rfl⟩ := List.getLast?_eq_some_iff.mp hslash
    have hlast : Text.splitAtEach '/' [] = [[]] := rfl
    rw [hstart, List.append_assoc, List.singleton_append, Text.splitAtEach_append_cons,
      List.foldlM_append] at hplace
    rw [Text.splitAtEach_append_cons, hlast, List.foldlM_append] at hmiddle
    obtain ⟨other, hother, hsame⟩ := bind_eq_ok hmiddle
    obtain ⟨other', hother', hrest⟩ := bind_eq_ok hplace
    obtain rfl := Except.ok.inj (hother.symm.trans hother')
    obtain rfl : middle = other := by
      have heq := eq_of_foldlM_follow hsame (by decide)
      rwa [show [[]].filter leadsOn = ([] : List Text) from rfl, List.append_nil] at heq
    exact hrest
  · rw [hstart, Text.splitAtEach_append_cons, List.foldlM_append] at hplace
    obtain ⟨other, hother, hrest⟩ := bind_eq_ok hplace
    obtain rfl := Except.ok.inj (hmiddle.symm.trans hother)
    exact hrest

/-- A path that leads somewhere is listed as it stands. -/
theorem listed_of_locate {path : Text} (h : tree.locate path = .ok place) :
    Glob.listed path = path :=
  Glob.listed_of_ne_nil (foldlM_of_locate h).1

/-- A relative path behind a directory leads where following it leads from the place that is listed
for the directory. -/
theorem foldlM_of_listed_join {directory path : Text} {middle : Place}
    (hdirectory : tree.locate (Glob.listed directory) = .ok middle)
    (hpath : Path.isAbsolute path = false)
    (h : tree.locate (Glob.listed (Path.join directory path)) = .ok place) :
    (Text.splitAtEach '/' path).foldlM tree.follow middle = .ok place := by
  cases directory with
  | cons c rest =>
      have hne : Path.join (c :: rest) path ≠ [] := by
        rw [Path.join, hpath, if_neg (by simp)]
        split <;> simp
      rw [Glob.listed_of_ne_nil hne] at h
      exact foldlM_of_locate_join hdirectory hpath h
  | nil =>
      -- nothing stands in front, so the path starts where relative paths do
      obtain ⟨-, hmiddle⟩ := foldlM_of_locate hdirectory
      have hdot : [['.']].foldlM tree.follow tree.working = .ok middle := hmiddle
      obtain rfl : middle = tree.working := by
        have heq := eq_of_foldlM_follow hdot (by decide)
        rwa [show [['.']].filter leadsOn = ([] : List Text) from rfl, List.append_nil] at heq
      rw [Path.join, List.isEmpty_nil, Bool.or_true, if_pos rfl] at h
      cases path with
      | nil => exact hdirectory.symm.trans h ▸ hdot
      | cons c rest =>
          have hstart : tree.start (c :: rest) = tree.working := by
            rw [start, hpath, if_neg (by simp)]
          rw [Glob.listed_of_ne_nil (List.cons_ne_nil c rest)] at h
          obtain ⟨-, hplace⟩ := foldlM_of_locate h
          rwa [hstart] at hplace

/-- **What stands behind a directory is the way from there.** -/
theorem eq_of_listed_join {directory path : Text} {middle : Place}
    (hdirectory : tree.locate (Glob.listed directory) = .ok middle) (hpath : LeadsDown path)
    (h : tree.locate (Glob.listed (Path.join directory path)) = .ok place) :
    place = middle ++ way path :=
  eq_of_foldlM_follow (foldlM_of_listed_join hdirectory hpath.relative h) hpath.onward

/-! ## Names -/

/-- A name that something in a directory can have. -/
structure IsName (name : Text) : Prop where
  ne_nil : name ≠ []
  noSlash : '/' ∉ name
  ne_dot : name ≠ ['.']
  ne_dots : name ≠ ['.', '.']

instance : DecidablePred IsName := fun name =>
  decidable_of_iff (name ≠ [] ∧ '/' ∉ name ∧ name ≠ ['.'] ∧ name ≠ ['.', '.'])
    ⟨fun h => ⟨h.1, h.2.1, h.2.2.1, h.2.2.2⟩, fun h => ⟨h.ne_nil, h.noSlash, h.ne_dot, h.ne_dots⟩⟩

/-- A tree all of whose places are made of names. -/
def WellNamed (tree : FileTree) : Prop := ∀ node ∈ tree.nodes, ∀ name ∈ node.1, IsName name

instance : DecidablePred WellNamed := fun tree =>
  inferInstanceAs (Decidable (∀ node ∈ tree.nodes, ∀ name ∈ node.1, IsName name))

theorem IsName.leadsOn {name : Text} (h : IsName name) : leadsOn name = true := by
  simp [FileTree.leadsOn, h.ne_nil, h.ne_dot]

section Names

variable {names : List Text} (hne : names ≠ []) (hnames : ∀ name ∈ names, IsName name)

include hne hnames

/-- The path that is made of names. -/
theorem splitAtEach_names : Text.splitAtEach '/' (Text.join ['/'] names) = names :=
  Text.splitAtEach_join hne fun name hname => (hnames name hname).noSlash

theorem way_names : way (Text.join ['/'] names) = names := by
  rw [way, splitAtEach_names hne hnames, List.filter_eq_self]
  exact fun name hname => (hnames name hname).leadsOn

theorem leadsDown_names : LeadsDown (Text.join ['/'] names) where
  relative := by
    -- an absolute path has an empty component in front of its first slash
    rw [Path.isAbsolute, decide_eq_false_iff_not]
    intro hslash
    obtain ⟨rest, hrest⟩ := List.head?_eq_some_iff.mp hslash
    have hsplit := splitAtEach_names hne hnames
    rw [hrest, ← List.nil_append ('/' :: rest), Text.splitAtEach_append_cons] at hsplit
    exact (hnames [] (hsplit ▸ List.mem_append_left _ List.mem_cons_self)).ne_nil rfl
  onward := by
    rw [splitAtEach_names hne hnames]
    exact fun hdots => (hnames _ hdots).ne_dots rfl

end Names

/-! ## What lies below a directory -/

/-- What is told of each place at most once is told once by the places of a tree. -/
theorem nodup_filterMap_nodes {β : Type} (tree : FileTree) (told : Place → Option β)
    (honce : ∀ place other value, told place = some value → told other = some value →
      place = other) : (tree.nodes.filterMap fun node => told node.1).Nodup := by
  have hplaces := tree.distinct.filterMap (f := told) fun place other value hplace hother =>
    honce place other value hplace hother
  rwa [List.filterMap_map] at hplaces

variable {directory : Place}

theorem nameIn?_eq_some_iff {name : Text} :
    nameIn? directory place = some name ↔ place = directory ++ [name] := by
  rw [nameIn?, eq_comm (a := place), ← List.isPrefixOf?_eq_some_iff_append_eq]
  split
  · rename_i other hother
    simp [hother]
  · rename_i hother
    exact iff_of_false (by simp) (hother name)

theorem mem_names {name : Text} (h : name ∈ tree.names directory) :
    ∃ node ∈ tree.nodes, node.1 = directory ++ [name] := by
  obtain ⟨node, hnode, hname⟩ := List.mem_filterMap.mp h
  exact ⟨node, hnode, nameIn?_eq_some_iff.mp hname⟩

theorem nodup_names (tree : FileTree) (directory : Place) : (tree.names directory).Nodup :=
  nodup_filterMap_nodes tree (nameIn? directory) fun _ _ _ hplace hother =>
    (nameIn?_eq_some_iff.mp hplace).trans (nameIn?_eq_some_iff.mp hother).symm

/-- The way from a directory to a place below it. -/
def wayTo? (directory place : Place) : Option (List Text) :=
  match directory.isPrefixOf? place with
  | some (name :: more) => some (name :: more)
  | _ => none

theorem wayTo?_eq_some_iff {names : List Text} :
    wayTo? directory place = some names ↔ names ≠ [] ∧ place = directory ++ names := by
  rw [wayTo?, eq_comm (a := place), ← List.isPrefixOf?_eq_some_iff_append_eq]
  split
  · rename_i name more hmore
    rw [hmore]
    refine ⟨fun h => ?_, And.right⟩
    obtain rfl := Option.some.inj h
    exact ⟨List.cons_ne_nil _ _, rfl⟩
  · rename_i hother
    refine iff_of_false (by simp) ?_
    rintro ⟨hne, hnames⟩
    obtain ⟨name, more, rfl⟩ := List.exists_cons_of_ne_nil hne
    exact hother name more hnames

theorem mem_below {names : List Text} (h : names ∈ tree.below directory) :
    names ≠ [] ∧ ∃ node ∈ tree.nodes, node.1 = directory ++ names := by
  obtain ⟨node, hnode, hway⟩ := List.mem_filterMap.mp h
  obtain ⟨hne, hplace⟩ := wayTo?_eq_some_iff.mp hway
  exact ⟨hne, node, hnode, hplace⟩

theorem nodup_below (tree : FileTree) (directory : Place) : (tree.below directory).Nodup :=
  nodup_filterMap_nodes tree (wayTo? directory) fun _ _ _ hplace hother =>
    (wayTo?_eq_some_iff.mp hplace).2.trans (wayTo?_eq_some_iff.mp hother).2.symm

section WellNamed

variable (hnames : tree.WellNamed)

include hnames

theorem WellNamed.isName {name : Text} (h : name ∈ tree.names directory) : IsName name := by
  obtain ⟨node, hnode, hplace⟩ := mem_names h
  exact hnames node hnode name (by simp [hplace])

theorem WellNamed.isName_below {names : List Text} (h : names ∈ tree.below directory) :
    ∀ name ∈ names, IsName name := by
  obtain ⟨-, node, hnode, hplace⟩ := mem_below h
  exact fun name hname => hnames node hnode name (by simp [hplace, hname])

end WellNamed

end FileTree

/-! ## The entries of a directory -/

namespace Glob

open FileTree

variable {tree : FileTree} {onlyDirectories : Bool} {directory component entry : Text}

/-- A component that leads from a directory to what lies in it: it holds no slash, and it does not
lead back. -/
structure IsOnward (component : Text) : Prop where
  noSlash : '/' ∉ component
  ne_dots : component ≠ ['.', '.']

theorem IsOnward.splitAtEach (h : IsOnward component) :
    Text.splitAtEach '/' component = [component] :=
  Text.splitAtEach_part fun _ hc heq => h.noSlash (heq ▸ hc)

theorem IsOnward.leadsDown (h : IsOnward component) : LeadsDown component where
  relative := by
    rw [Path.isAbsolute, decide_eq_false_iff_not]
    exact fun hslash => h.noSlash (List.mem_of_head? hslash)
  onward := by
    rw [h.splitAtEach, List.mem_singleton]
    exact Ne.symm h.ne_dots

theorem isOnward_nil : IsOnward [] := ⟨by simp, by simp⟩

theorem isOnward_of_isName {name : Text} (h : IsName name) : IsOnward name :=
  ⟨h.noSlash, h.ne_dots⟩

theorem way_name {name : Text} (h : IsName name) : way name = [name] := by
  rw [way, (isOnward_of_isName h).splitAtEach, List.filter_cons_of_pos h.leadsOn, List.filter_nil]

/-- Where something is found the directory is located. -/
theorem exists_locate_of_mem_entries
    (h : entry ∈ entries tree onlyDirectories directory component) :
    ∃ place, tree.locate (listed directory) = .ok place := by
  rw [entries] at h
  cases hplace : tree.locate (listed directory) with
  | error error => simp [hplace] at h
  | ok place => exact ⟨place, rfl⟩

/-- What an entry can be: the directory itself or something anywhere below it for the component that
stands for any way down, a name for another one with wildcards, or else the component. -/
theorem entry_cases (hnames : tree.WellNamed)
    (h : entry ∈ entries tree onlyDirectories directory component) :
    component = anyDepth ∧
        (entry = [] ∨ ∃ names, names ≠ [] ∧ (∀ name ∈ names, IsName name) ∧
          entry = Text.join ['/'] names) ∨
      component ≠ anyDepth ∧ (hasWildcard component = true ∧ IsName entry ∨ entry = component) := by
  obtain ⟨place, hplace⟩ := exists_locate_of_mem_entries h
  simp only [entries, hplace] at h
  split at h
  · rename_i hany
    refine .inl ⟨hany, ?_⟩
    rcases List.mem_append.mp h with h | h
    · split at h
      · exact .inl (List.mem_singleton.mp h)
      · cases h
    · obtain ⟨names, hmem, rfl⟩ := List.mem_map.mp h
      have hbelow := (List.mem_filter.mp hmem).1
      exact .inr ⟨names, (mem_below hbelow).1, hnames.isName_below hbelow, rfl⟩
  · rename_i hany
    refine .inr ⟨hany, ?_⟩
    split at h
    · rename_i hwild
      exact .inl ⟨hwild, hnames.isName (List.mem_filter.mp h).1⟩
    · split at h
      · rename_i hempty
        split at h
        · rw [List.isEmpty_iff.mp hempty]
          exact .inr (List.mem_singleton.mp h)
        · cases h
      · split at h
        · exact .inr (List.mem_singleton.mp h)
        · cases h

/-- All entries lead down. -/
theorem leadsDown_of_mem_entries (hnames : tree.WellNamed) (hcomponent : IsOnward component)
    (h : entry ∈ entries tree onlyDirectories directory component) : LeadsDown entry := by
  rcases entry_cases hnames h with ⟨-, rfl | ⟨names, hne, hall, rfl⟩⟩ | ⟨-, ⟨-, hname⟩ | rfl⟩
  · exact isOnward_nil.leadsDown
  · exact leadsDown_names hne hall
  · exact (isOnward_of_isName hname).leadsDown
  · exact hcomponent.leadsDown

/-- A component leads as far as it is long itself, unless it stands for any way down. -/
theorem length_way_of_mem_entries (hnames : tree.WellNamed) (hcomponent : IsOnward component)
    (hany : component ≠ anyDepth)
    (h : entry ∈ entries tree onlyDirectories directory component) :
    (way entry).length = (way component).length := by
  rcases entry_cases hnames h with ⟨hsame, -⟩ | ⟨-, ⟨hwild, hname⟩ | rfl⟩
  · exact absurd hsame hany
  · -- a component with a wildcard is none of those that lead nowhere
    have hleads : leadsOn component = true := by
      rw [leadsOn, Bool.and_eq_true, decide_eq_true_iff, decide_eq_true_iff]
      constructor
      · rintro rfl
        cases hwild
      · rintro rfl
        cases hwild
    rw [way_name hname, way, hcomponent.splitAtEach, List.filter_cons_of_pos hleads]
    rfl
  · rfl

/-- Different names are different ways. -/
theorem nodup_map_way {names : List Text} (hnodup : names.Nodup)
    (hnames : ∀ name ∈ names, IsName name) : (names.map way).Nodup := by
  refine hnodup.map_on fun name hname other hother hway => ?_
  rw [way_name (hnames name hname), way_name (hnames other hother)] at hway
  exact (List.cons.inj hway).1

/-- Paths that are made of different names are different ways. -/
theorem map_way_join {ways : List (List Text)} (hne : ∀ names ∈ ways, names ≠ [])
    (hnames : ∀ names ∈ ways, ∀ name ∈ names, IsName name) :
    (ways.map (Text.join ['/'])).map way = ways := by
  rw [List.map_map]
  conv_rhs => rw [← List.map_id ways]
  exact List.map_congr_left fun names hmem => way_names (hne names hmem) (hnames names hmem)

/-- **No two entries of a directory are one way.** -/
theorem nodup_way_entries (hnames : tree.WellNamed) (onlyDirectories : Bool)
    (directory component : Text) :
    ((entries tree onlyDirectories directory component).map way).Nodup := by
  rw [entries]
  cases hplace : tree.locate (listed directory) with
  | error error => exact List.nodup_nil
  | ok place =>
      have hone {kept : Prop} [Decidable kept] (path : Text) :
          ((if kept then [path] else []).map way).Nodup := by
        split
        · exact List.nodup_singleton _
        · exact List.nodup_nil
      simp only
      split
      · -- the directory itself is no way, and each other entry is the way that it is made of
        generalize hways : (tree.below place).filter _ = ways
        have hbelow : ∀ names ∈ ways, names ∈ tree.below place := fun names hmem =>
          (List.mem_filter.mp (hways ▸ hmem)).1
        rw [List.map_append, map_way_join (fun names hmem => (mem_below (hbelow names hmem)).1)
          fun names hmem => hnames.isName_below (hbelow names hmem), List.nodup_append]
        have hnodup : ways.Nodup := hways ▸ (nodup_below tree place).filter _
        refine ⟨hone [], hnodup, fun empty hempty names hmem => ?_⟩
        have hnil : empty = [] := by
          split at hempty
          · exact List.mem_singleton.mp hempty
          · cases hempty
        exact hnil ▸ (mem_below (hbelow names hmem)).1.symm
      · split
        · exact nodup_map_way ((nodup_names tree place).filter _) fun name hname =>
            hnames.isName (List.mem_filter.mp hname).1
        · split
          · exact hone _
          · exact hone _

end Glob

end LuaReference
