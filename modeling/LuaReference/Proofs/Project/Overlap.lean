import LuaReference.Project.Basic
import LuaReference.Proofs.Files.Ways
import LuaReference.Proofs.Merge.Regroup

set_option autoImplicit false

/-! # Entries that lead to one file

The files of a namespace are those of its entries, one entry behind the other, and what is
documented in them is joined in that order. No file is left out because it was listed before: a
file that two entries lead to is listed twice, and so are its functions (`files_of_entries`).

One entry lists a file twice only if it is a pattern of two kinds: one that stands for any way down
in two of its components, since a way can be divided between these in more than one place, or one
that goes back, since several directories lead back to one. Of any other pattern the paths stay
apart from component to component (`pairwise_apart_step`).
-/

namespace LuaReference

/-! ## Paths to different places -/

namespace FileTree

variable (tree : FileTree)

/-- Two paths do not lead to one place. Where a path is empty, it leads to where relative paths
start. -/
def Apart (path other : Text) : Prop :=
  ∀ place, tree.locate (Glob.listed path) = .ok place → tree.locate (Glob.listed other) ≠ .ok place

/-- The places of some paths are all equally far down. -/
def Level (paths : List Text) : Prop :=
  ∃ depth, ∀ path ∈ paths, ∀ place, tree.locate (Glob.listed path) = .ok place →
    place.length = depth

variable {tree} {path other : Text}

theorem apart_comm (h : tree.Apart path other) : tree.Apart other path :=
  fun place hother hpath => h place hpath hother

/-- A path that leads somewhere leads to another place than one that is apart from it. -/
theorem Apart.locate_ne {place : Place} (h : tree.Apart path other)
    (hpath : tree.locate path = .ok place) : tree.locate other ≠ .ok place := by
  intro hother
  have hlisted := h place
  rw [listed_of_locate hpath, listed_of_locate hother] at hlisted
  exact hlisted hpath hother

end FileTree

namespace Glob

open FileTree

variable {tree : FileTree} {component : Text} {directories : List Text}

/-- The paths that a component leads to from some directories. -/
def behind (tree : FileTree) (onlyDirectories : Bool) (directories : List Text)
    (component : Text) : List Text :=
  directories.flatMap fun directory =>
    (entries tree onlyDirectories directory component).map (Path.join directory)

/-- The place of an entry is the way to it from the place of the directory. -/
theorem exists_way_of_locate (hnames : tree.WellNamed) (hcomponent : IsOnward component)
    {onlyDirectories : Bool} {directory entry : Text} {place : Place}
    (hentry : entry ∈ entries tree onlyDirectories directory component)
    (hplace : tree.locate (listed (Path.join directory entry)) = .ok place) :
    ∃ middle, tree.locate (listed directory) = .ok middle ∧ place = middle ++ way entry := by
  obtain ⟨middle, hmiddle⟩ := exists_locate_of_mem_entries hentry
  exact ⟨middle, hmiddle,
    eq_of_listed_join hmiddle (leadsDown_of_mem_entries hnames hcomponent hentry) hplace⟩

/-- **Paths that are apart stay apart.** A component that stands for any way down needs them to be
equally far down. -/
theorem pairwise_apart_behind (hnames : tree.WellNamed) (hcomponent : IsOnward component)
    (hlevel : component = anyDepth → tree.Level directories) (onlyDirectories : Bool)
    (h : directories.Pairwise tree.Apart) :
    (behind tree onlyDirectories directories component).Pairwise tree.Apart := by
  rw [behind, List.pairwise_flatMap]
  constructor
  · -- from one directory different ways lead to different places
    intro directory _
    have hways := nodup_way_entries hnames onlyDirectories directory component
    rw [List.Nodup, List.pairwise_map] at hways
    rw [List.pairwise_map]
    refine hways.imp_of_mem fun hentry hother hne place hplace hsame => hne ?_
    obtain ⟨middle, hmiddle, rfl⟩ := exists_way_of_locate hnames hcomponent hentry hplace
    obtain ⟨middle', hmiddle', heq⟩ := exists_way_of_locate hnames hcomponent hother hsame
    obtain rfl := Except.ok.inj (hmiddle.symm.trans hmiddle')
    exact List.append_cancel_left heq
  · refine h.imp_of_mem fun {directory other} hdirectory hother hapart path hpath path' hpath' => ?_
    obtain ⟨entry, hentry, rfl⟩ := List.mem_map.mp hpath
    obtain ⟨entry', hentry', rfl⟩ := List.mem_map.mp hpath'
    intro place hplace hsame
    obtain ⟨middle, hmiddle, rfl⟩ := exists_way_of_locate hnames hcomponent hentry hplace
    obtain ⟨middle', hmiddle', heq⟩ := exists_way_of_locate hnames hcomponent hentry' hsame
    -- the two ways, or else the two places that they start from, are equally long
    have hmiddles : middle = middle' := by
      by_cases hany : component = anyDepth
      · obtain ⟨depth, hdepth⟩ := hlevel hany
        have hlength := (hdepth directory hdirectory middle hmiddle).trans
          (hdepth other hother middle' hmiddle').symm
        exact (List.append_inj heq hlength).1
      · have hlength := (length_way_of_mem_entries hnames hcomponent hany hentry).trans
          (length_way_of_mem_entries hnames hcomponent hany hentry').symm
        exact (List.append_inj' heq hlength).1
    exact hapart middle hmiddle (hmiddles ▸ hmiddle')

/-- Any other component leads equally far from all directories. -/
theorem level_behind (hnames : tree.WellNamed) (hcomponent : IsOnward component)
    (hany : component ≠ anyDepth) (onlyDirectories : Bool) (h : tree.Level directories) :
    tree.Level (behind tree onlyDirectories directories component) := by
  obtain ⟨depth, hdepth⟩ := h
  refine ⟨depth + (way component).length, fun path hpath place hplace => ?_⟩
  obtain ⟨directory, hdirectory, hpath⟩ := List.mem_flatMap.mp hpath
  obtain ⟨entry, hentry, rfl⟩ := List.mem_map.mp hpath
  obtain ⟨middle, hmiddle, rfl⟩ := exists_way_of_locate hnames hcomponent hentry hplace
  rw [List.length_append, hdepth directory hdirectory middle hmiddle,
    length_way_of_mem_entries hnames hcomponent hany hentry]

/-- Components that lead to no place in two ways: at most one of them stands for any way down, and
none leads back. -/
structure IsDirect (components : List Text) : Prop where
  once : components.count anyDepth ≤ 1
  onward : ['.', '.'] ∉ components

instance : DecidablePred IsDirect := fun components =>
  decidable_of_iff
    (components.count anyDepth ≤ 1 ∧ ∀ component ∈ components, component ≠ ['.', '.'])
    ⟨fun h => ⟨h.1, fun hmem => h.2 _ hmem rfl⟩,
      fun h => ⟨h.once, fun _ hmem heq => h.onward (heq ▸ hmem)⟩⟩

/-- The paths that direct components lead to are apart. -/
theorem pairwise_apart_expand (hnames : tree.WellNamed) {components : List Text}
    (hcomponents : ∀ component ∈ components, IsOnward component)
    (honce : components.count anyDepth ≤ 1)
    (hlevel : anyDepth ∈ components → tree.Level directories)
    (h : directories.Pairwise tree.Apart) :
    (expand tree directories components).Pairwise tree.Apart := by
  induction components generalizing directories with
  | nil => exact h
  | cons component rest ih =>
      rw [List.forall_mem_cons] at hcomponents
      have hnext := pairwise_apart_behind hnames hcomponents.1
        (fun hany => hlevel (hany ▸ List.mem_cons_self)) (!rest.isEmpty) h
      by_cases hany : component = anyDepth
      · -- no other component stands for any way down
        subst hany
        rw [List.count_cons_self] at honce
        have hnone : anyDepth ∉ rest := List.count_eq_zero.mp (by omega)
        exact ih hcomponents.2 (by omega) (fun hmem => absurd hmem hnone) hnext
      · rw [List.count_cons_of_ne hany] at honce
        exact ih hcomponents.2 honce (fun hmem => level_behind hnames hcomponents.1 hany _
          (hlevel (List.mem_cons_of_mem component hmem))) hnext

theorem noSlash_splitPattern {pattern : Text} (h : component ∈ (splitPattern pattern).2) :
    '/' ∉ component := by
  rcases List.mem_append.mp h with h | h
  · exact Text.not_mem_of_mem_splitAtEach
      ((List.dropWhile_sublist _).subset (List.mem_filter.mp h).1)
  · split at h
    · rw [List.mem_singleton.mp h]
      exact List.not_mem_nil
    · cases h

/-- Paths that are found in their order stay in it. -/
theorem files_eq_of_pairwise {pattern : Text} {paths : List Text}
    (hpaths : (expand tree [(splitPattern pattern).1] (splitPattern pattern).2).filter tree.isFile =
      paths) (h : paths.Pairwise fun path other => Text.precedes path other = true) :
    files tree pattern = paths := by
  calc files tree pattern
      = Text.sorted ((expand tree [(splitPattern pattern).1] (splitPattern pattern).2).filter
          tree.isFile) := rfl
    _ = Text.sorted paths := by rw [hpaths]
    _ = paths := List.mergeSort_of_pairwise h

/-- The files that a direct pattern matches are apart. -/
theorem pairwise_apart_files (hnames : tree.WellNamed) {pattern : Text}
    (h : IsDirect (splitPattern pattern).2) : (files tree pattern).Pairwise tree.Apart := by
  have hcomponents : ∀ component ∈ (splitPattern pattern).2, IsOnward component :=
    fun component hmem =>
      ⟨noSlash_splitPattern hmem, fun hdots => h.onward (hdots ▸ hmem)⟩
  have hlevel : tree.Level [(splitPattern pattern).1] := by
    cases hplace : tree.locate (listed (splitPattern pattern).1) with
    | error error => exact ⟨0, by simp [hplace]⟩
    | ok place => exact ⟨place.length, by simp [hplace]⟩
  have hpaths := pairwise_apart_expand hnames hcomponents h.once (fun _ => hlevel)
    (List.pairwise_singleton _ _)
  exact ((hpaths.filter _).perm (List.mergeSort_perm _ _).symm apart_comm)

end Glob

/-! ## Entries -/

namespace Resolution

variable {tree : FileTree} {directory entry : Text}

/-- An entry that is a path, or a pattern that leads to no place in two ways. -/
def IsDirect (directory entry : Text) : Prop :=
  isPattern entry = true → Glob.IsDirect (Glob.splitPattern (Path.join directory entry)).2

instance : Decidable (IsDirect directory entry) :=
  inferInstanceAs (Decidable (isPattern entry = true → Glob.IsDirect _))

/-- The entry leads to the file at a place. -/
def LeadsTo (tree : FileTree) (directory entry : Text) (place : Place) : Prop :=
  .ok place ∈ (ofEntry tree directory entry).files.map tree.locate

instance (place : Place) : Decidable (LeadsTo tree directory entry place) :=
  inferInstanceAs (Decidable (_ ∈ _))

/-- The files of a pattern in a directory are those that match it. -/
theorem files_ofEntry_of_root? {root : Text} (hroot : root? directory entry = some root)
    (hdirectory : tree.isDirectory root = true) :
    (ofEntry tree directory entry).files = Glob.files tree (Path.join directory entry) := by
  rw [ofEntry]
  simp only [hroot, hdirectory, Bool.not_true, Bool.false_eq_true, if_false]
  split
  · rename_i hnone
    exact hnone.symm
  · rfl

/-- The files of an entry are the one at its path, or those that match it as a pattern. -/
theorem files_ofEntry_cases (tree : FileTree) (directory entry : Text) :
    (ofEntry tree directory entry).files = [] ∨
      (tree.isFile (Path.join directory entry) = true ∧
        (ofEntry tree directory entry).files = [Path.join directory entry]) ∨
      (isPattern entry = true ∧
        (ofEntry tree directory entry).files = Glob.files tree (Path.join directory entry)) := by
  cases hroot : root? directory entry with
  | none =>
      simp only [ofEntry, hroot]
      split_ifs with hpath hfile
      · exact .inl rfl
      · exact .inl rfl
      · exact .inr (.inl ⟨by simpa using hfile, rfl⟩)
  | some root =>
      have hpattern : isPattern entry = true := by
        rw [root?] at hroot
        split at hroot
        · assumption
        · cases hroot
      by_cases hdirectory : tree.isDirectory root = true
      · exact .inr (.inr ⟨hpattern, files_ofEntry_of_root? hroot hdirectory⟩)
      · simp [ofEntry, hroot, hdirectory]

/-- What is listed is there. -/
theorem exists_locate_of_mem_files {path : Text}
    (h : path ∈ (ofEntry tree directory entry).files) :
    ∃ place, tree.locate path = .ok place := by
  have hfile : tree.isFile path = true := by
    rcases files_ofEntry_cases tree directory entry with hnone | ⟨hfile, hone⟩ | ⟨-, hall⟩
    · rw [hnone] at h
      cases h
    · rw [hone, List.mem_singleton] at h
      exact h ▸ hfile
    · rw [hall] at h
      exact (List.mem_filter.mp ((List.mergeSort_perm _ _).subset h)).2
  rw [FileTree.isFile, FileTree.nodeAt?] at hfile
  cases hplace : tree.locate path with
  | error error => simp [hplace] at hfile
  | ok place => exact ⟨place, rfl⟩

/-- A direct entry leads to no file twice. -/
theorem nodup_ofEntry (hnames : tree.WellNamed) (h : IsDirect directory entry) :
    ((ofEntry tree directory entry).files.map tree.locate).Nodup := by
  have hapart : (ofEntry tree directory entry).files.Pairwise tree.Apart := by
    rcases files_ofEntry_cases tree directory entry with hnone | ⟨-, hone⟩ | ⟨hpattern, hall⟩
    · exact hnone ▸ List.Pairwise.nil
    · exact hone ▸ List.pairwise_singleton _ _
    · exact hall ▸ Glob.pairwise_apart_files hnames (h hpattern)
  rw [List.Nodup, List.pairwise_map]
  refine hapart.imp_of_mem fun hpath _ hne hsame => ?_
  obtain ⟨place, hplace⟩ := exists_locate_of_mem_files hpath
  exact hne.locate_ne hplace (hsame ▸ hplace)

end Resolution

/-! ## Joined documentation -/

namespace ProjectReport

variable {tree : FileTree} {name : Text} {files : List Text}

/-- The documentation of one file. -/
def documentFile (tree : FileTree) (name path : Text) : Except Fault Doc := do
  parseText name (← tree.readText path)

/-- Files are documented if each of them is. -/
theorem documentFiles_eq_ok_iff {doc : NamespaceDoc} :
    documentFiles tree name files = .ok doc ↔
      ∃ docs, List.Forall₂ (fun path doc => documentFile tree name path = .ok doc) files docs ∧
        mergeDocs name docs = doc := by
  rw [documentFiles]
  constructor
  · intro h
    obtain ⟨docs, hdocs, hmerged⟩ := bind_eq_ok h
    exact ⟨docs, (mapM_eq_ok_iff _ _ _).mp hdocs, Except.ok.inj hmerged⟩
  · rintro ⟨docs, hdocs, rfl⟩
    exact congrArg (· >>= _) ((mapM_eq_ok_iff (documentFile tree name) _ _).mpr hdocs)

theorem documentFiles_singleton {path : Text} {doc : NamespaceDoc}
    (h : documentFiles tree name [path] = .ok doc) :
    ∃ source, documentFile tree name path = .ok source ∧ mergeDocs name [source] = doc := by
  obtain ⟨sources, hsources, hmerged⟩ := documentFiles_eq_ok_iff.mp h
  obtain ⟨source, rest, hsource, hrest, rfl⟩ := List.forall₂_cons_left_iff.mp hsources
  obtain rfl := List.forall₂_nil_left_iff.mp hrest
  exact ⟨source, hsource, hmerged⟩

/-- What is documented outside of classes is joined when sources are merged. -/
theorem mergeDocs_outside (name : Text) (docs : List Doc) :
    (mergeDocs name docs).functions = docs.flatMap (·.namespaces.flatMap NamespaceDoc.functions) ∧
      (mergeDocs name docs).fields = docs.flatMap (·.namespaces.flatMap NamespaceDoc.fields) := by
  rw [mergeDocs, foldl_merge]
  exact ⟨List.flatMap_assoc, List.flatMap_assoc⟩

/-- What is documented in files outside of classes is what is documented in each of them, one behind
the other. -/
theorem documentFiles_joins {docs : List NamespaceDoc}
    (h : List.Forall₂ (fun path doc => documentFiles tree name [path] = .ok doc) files docs) :
    ∃ merged, documentFiles tree name files = .ok merged ∧
      merged.functions = docs.flatMap NamespaceDoc.functions ∧
      merged.fields = docs.flatMap NamespaceDoc.fields := by
  have hsources : ∃ sources,
      List.Forall₂ (fun path doc => documentFile tree name path = .ok doc) files sources ∧
        docs = sources.map fun source => mergeDocs name [source] := by
    induction h with
    | nil => exact ⟨[], .nil, rfl⟩
    | cons hfirst _ ih =>
        obtain ⟨source, hsource, rfl⟩ := documentFiles_singleton hfirst
        obtain ⟨sources, hsources, rfl⟩ := ih
        exact ⟨source :: sources, .cons hsource hsources, rfl⟩
  obtain ⟨sources, hsources, rfl⟩ := hsources
  refine ⟨_, documentFiles_eq_ok_iff.mpr ⟨sources, hsources, rfl⟩, ?_, ?_⟩
  · simp only [mergeDocs_outside, List.flatMap_map, List.flatMap_singleton]
  · simp only [mergeDocs_outside, List.flatMap_map, List.flatMap_singleton]

end ProjectReport

/-! ## All entries -/

/-- Lists without repetitions hold a value once for each of them that holds it. -/
theorem count_flatMap_of_nodup {α β : Type} [DecidableEq β] {listed : α → List β} {xs : List α}
    (h : ∀ x ∈ xs, (listed x).Nodup) (value : β) :
    (xs.flatMap listed).count value = xs.countP fun x => value ∈ listed x := by
  induction xs with
  | nil => rfl
  | cons x xs ih =>
      rw [List.forall_mem_cons] at h
      rw [List.flatMap_cons, List.count_append, h.1.count, ih h.2, List.countP_cons, Nat.add_comm]
      simp only [decide_eq_true_eq]

open Resolution

/-- **A file is listed once for each entry that leads to it.** Let all entries be direct, in a tree
whose places are made of names. Then the files have no place twice just if no two entries lead to
one place, and whatever is documented outside of classes is there once for each time that its file
is listed. -/
theorem files_of_entries {tree : FileTree} (hnames : tree.WellNamed) {directory : Text}
    {entries : List Text} (hdirect : ∀ entry ∈ entries, IsDirect directory entry) :
    let files := (ofEntries tree directory entries).files
    (∀ place, (files.map tree.locate).count (.ok place) =
        entries.countP fun entry => LeadsTo tree directory entry place) ∧
      ((files.map tree.locate).Nodup ↔
        entries.Pairwise fun entry other => ∀ place,
          LeadsTo tree directory entry place → ¬ LeadsTo tree directory other place) ∧
      ∀ name docs, List.Forall₂
        (fun path doc => ProjectReport.documentFiles tree name [path] = .ok doc) files docs →
          ∃ merged, ProjectReport.documentFiles tree name files = .ok merged ∧
            merged.functions = docs.flatMap NamespaceDoc.functions ∧
            merged.fields = docs.flatMap NamespaceDoc.fields := by
  intro files
  have hplaces : files.map tree.locate = entries.flatMap fun entry =>
      (ofEntry tree directory entry).files.map tree.locate := List.map_flatMap
  have hnodup : ∀ entry ∈ entries,
      ((ofEntry tree directory entry).files.map tree.locate).Nodup :=
    fun entry hentry => nodup_ofEntry hnames (hdirect entry hentry)
  refine ⟨fun place => ?_, ?_, fun name docs h => ProjectReport.documentFiles_joins h⟩
  · rw [hplaces]
    exact count_flatMap_of_nodup hnodup _
  · rw [hplaces, List.nodup_flatMap, and_iff_right hnodup]
    refine List.Pairwise.iff fun entry other => ⟨fun h place hplace hother => h hplace hother, ?_⟩
    -- what is listed is there, so a common element is a common place
    intro h found hentry hother
    obtain ⟨path, hpath, rfl⟩ := List.mem_map.mp hentry
    obtain ⟨place, hplace⟩ := exists_locate_of_mem_files hpath
    rw [hplace] at hentry hother
    exact h place hentry hother

/-- A directory with two files, one of them further down. -/
def sourceTree : FileTree where
  nodes :=
    [(["src".toList], .directory), (["src".toList, "data".toList], .directory),
      (["src".toList, "util".toList], .directory),
      (["src".toList, "main.lua".toList], .file (Text.toUtf8 "function main() end".toList)),
      (["src".toList, "util".toList, "log.lua".toList],
        .file (Text.toUtf8 "function log() end".toList))]
  distinct := by decide

/-- A file and all files, itself among them. -/
def mainEntries : List Text := ["main.lua".toList, "**/*.lua".toList]

theorem files_main : (ofEntry sourceTree "/src".toList "main.lua".toList).files =
    ["/src/main.lua".toList] := by
  decide +kernel

/-- A pattern in the directory leads to the paths that are found for it in their order. -/
theorem files_pattern {pattern : Text} {paths : List Text}
    (hroot : root? "/src".toList pattern = some "/src".toList)
    (hpaths :
      let split := Glob.splitPattern (Path.join "/src".toList pattern)
      (Glob.expand sourceTree [split.1] split.2).filter sourceTree.isFile = paths)
    (h : paths.Pairwise fun path other => Text.precedes path other = true) :
    (ofEntry sourceTree "/src".toList pattern).files = paths := by
  rw [files_ofEntry_of_root? hroot (by decide +kernel)]
  exact Glob.files_eq_of_pairwise hpaths h

theorem files_all : (ofEntry sourceTree "/src".toList "**/*.lua".toList).files =
    ["/src/main.lua".toList, "/src/util/log.lua".toList] :=
  files_pattern (by decide +kernel) (by decide +kernel) (by decide +kernel)

theorem files_mainEntries : (ofEntries sourceTree "/src".toList mainEntries).files =
    ["/src/main.lua".toList, "/src/main.lua".toList, "/src/util/log.lua".toList] := by
  simp only [ofEntries, mainEntries, List.flatMap_cons, List.flatMap_nil, files_main, files_all,
    List.append_nil, List.singleton_append]

/-- The file that both entries lead to is listed twice, and its function is documented twice. -/
theorem files_of_mainEntries :
    let files := (ofEntries sourceTree "/src".toList mainEntries).files
    let main : FunctionDoc := { name := "main".toList }
    let log : FunctionDoc := { name := "log".toList }
    sourceTree.WellNamed ∧ (∀ entry ∈ mainEntries, IsDirect "/src".toList entry) ∧
      (files.map sourceTree.locate).count (.ok ["src".toList, "main.lua".toList]) = 2 ∧
      (files.map sourceTree.locate).count
        (.ok ["src".toList, "util".toList, "log.lua".toList]) = 1 ∧
      ∃ merged, ProjectReport.documentFiles sourceTree defaultNamespace files = .ok merged ∧
        merged.functions = [main, main, log] := by
  intro files main log
  have hnames : sourceTree.WellNamed := by decide +kernel
  have hdirect : ∀ entry ∈ mainEntries, IsDirect "/src".toList entry := by decide +kernel
  obtain ⟨hcount, -, hjoins⟩ := files_of_entries hnames hdirect
  have hleads (place : Place) : mainEntries.countP
      (fun entry => LeadsTo sourceTree "/src".toList entry place) =
        List.countP (fun files => .ok place ∈ files.map sourceTree.locate)
          [["/src/main.lua".toList], ["/src/main.lua".toList, "/src/util/log.lua".toList]] := by
    simp only [mainEntries, List.countP_cons, List.countP_nil, LeadsTo, files_main, files_all]
  refine ⟨hnames, hdirect, ((hcount _).trans (hleads _)).trans (by decide +kernel),
    ((hcount _).trans (hleads _)).trans (by decide +kernel), ?_⟩
  have hmain : ProjectReport.documentFiles sourceTree defaultNamespace ["/src/main.lua".toList] =
      .ok { name := defaultNamespace, functions := [main] } := by decide +kernel
  have hlog : ProjectReport.documentFiles sourceTree defaultNamespace
      ["/src/util/log.lua".toList] = .ok { name := defaultNamespace, functions := [log] } := by
    decide +kernel
  have hdocs : List.Forall₂
      (fun path doc => ProjectReport.documentFiles sourceTree defaultNamespace [path] = .ok doc)
      (ofEntries sourceTree "/src".toList mainEntries).files
      [{ name := defaultNamespace, functions := [main] },
        { name := defaultNamespace, functions := [main] },
        { name := defaultNamespace, functions := [log] }] := by
    rw [files_mainEntries]
    exact .cons hmain (.cons hmain (.cons hlog .nil))
  obtain ⟨merged, hmerged, hfunctions, -⟩ := hjoins defaultNamespace _ hdocs
  exact ⟨merged, hmerged, hfunctions⟩

/-- Two entries list a file twice, and so does one pattern: by two divisions of one way, or over two
directories that it goes back from. -/
theorem repeated_files :
    let files (entries : List Text) := (ofEntries sourceTree "/src".toList entries).files
    files ["main.lua".toList, "**/*.lua".toList] =
        ["/src/main.lua".toList, "/src/main.lua".toList, "/src/util/log.lua".toList] ∧
      files ["**/**/*.lua".toList] =
        ["/src/main.lua".toList, "/src/util/log.lua".toList, "/src/util/log.lua".toList] ∧
      files ["*/../*.lua".toList] =
        ["/src/data/../main.lua".toList, "/src/util/../main.lua".toList] ∧
      sourceTree.locate "/src/data/../main.lua".toList =
        sourceTree.locate "/src/util/../main.lua".toList ∧
      ¬ (files ["main.lua".toList, "**/*.lua".toList]).Nodup := by
  intro files
  have hmain : files ["main.lua".toList, "**/*.lua".toList] =
      ["/src/main.lua".toList, "/src/main.lua".toList, "/src/util/log.lua".toList] :=
    files_mainEntries
  have hsingle (pattern : Text) :
      files [pattern] = (ofEntry sourceTree "/src".toList pattern).files := List.append_nil _
  refine ⟨hmain, ?_, ?_, by decide +kernel, ?_⟩
  · rw [hsingle]
    exact files_pattern (by decide +kernel) (by decide +kernel) (by decide +kernel)
  · rw [hsingle]
    exact files_pattern (by decide +kernel) (by decide +kernel) (by decide +kernel)
  · rw [hmain]
    decide

end LuaReference
