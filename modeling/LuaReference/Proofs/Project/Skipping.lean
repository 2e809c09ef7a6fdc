import LuaReference.Proofs.Files.Listing
import LuaReference.Proofs.Project.Overlap

set_option autoImplicit false

/-! # Entries that are skipped

The entries of a namespace are resolved one by one: what one of them resolves to depends on no other
entry, and not on the order in which directories list (`Relists.ofEntries_eq`). So an entry that an
error is reported about can as well be left out. It leads to no file (`files_eq_nil_of_isReported`),
and the documentation of a project is that of the files which the entries of its namespaces lead to
(`result_ofConfig`). The main statement is `entries_resolve_alone`.
-/

namespace LuaReference

namespace Resolution

variable {tree : FileTree} {directory entry : Text}

/-! ## Single entries -/

/-- What is reported as an error. -/
def errors (resolution : Resolution) : List Notice := resolution.notices.filter Notice.isError

/-- The lines that are logged. -/
def warnings (resolution : Resolution) : List Text := resolution.notices.map Notice.logLine

/-- Whether one of some errors was reported about an entry. -/
def isReported (tree : FileTree) (directory : Text) (reported : List Notice) (entry : Text) :
    Bool :=
  (ofEntry tree directory entry).errors.any reported.contains

/-- An entry leads to files, or something is noted about it. -/
theorem files_eq_nil_or_notices_eq_nil (tree : FileTree) (directory entry : Text) :
    (ofEntry tree directory entry).files = [] ∨ (ofEntry tree directory entry).notices = [] := by
  rw [ofEntry]
  split
  · split
    · exact .inl rfl
    · split
      · exact .inl rfl
      · exact .inr rfl
  · split_ifs
    · exact .inl rfl
    · exact .inl rfl
    · exact .inr rfl

/-- What an error is reported about leads to no file. -/
theorem files_eq_nil_of_isReported {reported : List Notice}
    (h : isReported tree directory reported entry = true) :
    (ofEntry tree directory entry).files = [] := by
  refine (files_eq_nil_or_notices_eq_nil tree directory entry).resolve_right fun hnone => ?_
  rw [isReported, errors, hnone] at h
  cases h

/-- What an entry leads to is a file. -/
theorem isFile_of_mem_files {path : Text} (h : path ∈ (ofEntry tree directory entry).files) :
    tree.isFile path = true := by
  rcases files_ofEntry_cases tree directory entry with hnone | ⟨hfile, hone⟩ | ⟨-, hall⟩
  · rw [hnone] at h
    cases h
  · rw [hone, List.mem_singleton] at h
    exact h ▸ hfile
  · rw [hall] at h
    exact (List.mem_filter.mp ((List.mergeSort_perm _ _).subset h)).2

/-! ## Lists of entries -/

theorem files_append (first second : List Text) :
    (ofEntries tree directory (first ++ second)).files =
      (ofEntries tree directory first).files ++ (ofEntries tree directory second).files :=
  List.flatMap_append

theorem notices_append (first second : List Text) :
    (ofEntries tree directory (first ++ second)).notices =
      (ofEntries tree directory first).notices ++ (ofEntries tree directory second).notices :=
  List.flatMap_append

theorem errors_ofEntries (tree : FileTree) (directory : Text) (entries : List Text) :
    (ofEntries tree directory entries).errors =
      entries.flatMap fun entry => (ofEntry tree directory entry).errors :=
  List.filter_flatMap

/-- Entries that lead to no file can be left out. -/
theorem files_filter {kept : Text → Bool} {entries : List Text}
    (h : ∀ entry ∈ entries, kept entry = false → (ofEntry tree directory entry).files = []) :
    (ofEntries tree directory (entries.filter kept)).files =
      (ofEntries tree directory entries).files := by
  induction entries with
  | nil => rfl
  | cons entry entries ih =>
      rw [List.forall_mem_cons] at h
      have hrest := ih h.2
      simp only [ofEntries] at hrest ⊢
      cases hkept : kept entry with
      | true => rw [List.filter_cons_of_pos hkept, List.flatMap_cons, List.flatMap_cons, hrest]
      | false =>
          rw [List.filter_cons_of_neg (by simp [hkept]), List.flatMap_cons, h.1 hkept, hrest]
          rfl

end Resolution

/-! ## Projects -/

namespace Config

/-- The configuration without the entries that one of some errors was reported about. -/
def withoutReported (config : Config) (tree : FileTree) (directory : Text)
    (reported : List Notice) : Config :=
  config.map fun (name, entries) =>
    (name, entries.filter fun entry => !Resolution.isReported tree directory reported entry)

end Config

namespace ProjectReport

open Resolution

variable {tree : FileTree} {directory : Text}

/-- What is reported as an error. -/
def errors (report : ProjectReport) : List Notice := report.notices.filter Notice.isError

/-- The documentation of one namespace of a configuration. -/
def documentNamespace (tree : FileTree) (directory : Text) (namespaceEntries : Text × List Text) :
    Except Fault NamespaceDoc :=
  documentFiles tree namespaceEntries.1 (ofEntries tree directory namespaceEntries.2).files

/-- **A project is documented namespace by namespace**, each from the files that its entries lead
to. -/
theorem result_ofConfig (tree : FileTree) (directory : Text) (config : Config) :
    (ofConfig tree directory config).result =
      (config.mapM (documentNamespace tree directory)).map Doc.mk := by
  induction config with
  | nil => rfl
  | cons head rest ih =>
      obtain ⟨name, entries⟩ := head
      have hhead : documentNamespace tree directory (name, entries) =
          documentFiles tree name (ofEntries tree directory entries).files := rfl
      rw [ofConfig, List.mapM_cons, hhead]
      cases documentFiles tree name (ofEntries tree directory entries).files with
      | error fault => rfl
      | ok doc =>
          simp only [addNamespace, ih, ok_bind]
          cases rest.mapM (documentNamespace tree directory) <;> rfl

/-- As long as all of it is documented, everything noted about its entries is kept in their
order. -/
theorem notices_ofConfig {config : Config} {doc : Doc}
    (h : (ofConfig tree directory config).result = .ok doc) :
    (ofConfig tree directory config).notices =
      config.flatMap fun (_, entries) => (ofEntries tree directory entries).notices := by
  induction config generalizing doc with
  | nil => rfl
  | cons head rest ih =>
      obtain ⟨name, entries⟩ := head
      rw [ofConfig] at h ⊢
      cases hdoc : documentFiles tree name (ofEntries tree directory entries).files with
      | error fault => simp [hdoc] at h
      | ok first =>
          simp only [hdoc, addNamespace] at h ⊢
          cases hrest : (ofConfig tree directory rest).result with
          | error fault => simp [hrest, Except.map] at h
          | ok more => rw [List.flatMap_cons, ih hrest]

/-- So are the errors. -/
theorem errors_ofConfig {config : Config} {doc : Doc}
    (h : (ofConfig tree directory config).result = .ok doc) :
    (ofConfig tree directory config).errors =
      config.flatMap fun (_, entries) => (ofEntries tree directory entries).errors := by
  rw [errors, notices_ofConfig h, List.filter_flatMap]
  rfl

/-- Entries that errors were reported about can be left out of a project. -/
theorem result_withoutReported (tree : FileTree) (directory : Text) (reported : List Notice)
    (config : Config) :
    (ofConfig tree directory (config.withoutReported tree directory reported)).result =
      (ofConfig tree directory config).result := by
  have hfiles (entries : List Text) :
      (ofEntries tree directory
        (entries.filter fun entry => !isReported tree directory reported entry)).files =
          (ofEntries tree directory entries).files :=
    files_filter fun entry _ hreported => files_eq_nil_of_isReported (by simpa using hreported)
  rw [result_ofConfig, result_ofConfig, Config.withoutReported, List.mapM_map]
  simp only [Function.comp_def, documentNamespace, hfiles]
  rfl

/-- What is left when the reported entries are taken out reports no error. -/
theorem errors_withoutReported {config : Config} {doc : Doc}
    (h : (ofConfig tree directory config).result = .ok doc) :
    (ofConfig tree directory (config.withoutReported tree directory
      (ofConfig tree directory config).errors)).errors = [] := by
  have hreport := errors_ofConfig h
  set reported := (ofConfig tree directory config).errors with hreported
  rw [errors_ofConfig ((result_withoutReported tree directory reported config).trans h)]
  simp only [Config.withoutReported, List.flatMap_map, errors_ofEntries, List.flatMap_eq_nil_iff,
    List.mem_filter]
  rintro ⟨name, entries⟩ hname entry ⟨hentry, hkept⟩
  -- an error about an entry that is left would have been reported, and the entry taken out
  rw [List.eq_nil_iff_forall_not_mem]
  intro notice hnotice
  have hmem : notice ∈ reported := by
    have hentries : notice ∈ (ofEntries tree directory entries).errors := by
      rw [errors_ofEntries]
      exact List.mem_flatMap.mpr ⟨entry, hentry, hnotice⟩
    rw [hreport]
    exact List.mem_flatMap.mpr ⟨(name, entries), hname, hentries⟩
  have hyes : isReported tree directory reported entry = true :=
    List.any_eq_true.mpr ⟨notice, hnotice, List.contains_iff_mem.mpr hmem⟩
  rw [hyes] at hkept
  cases hkept

end ProjectReport

/-! ## Other listings -/

namespace FileTree.Relists

variable {tree other : FileTree} (h : tree.Relists other)

include h

theorem ofEntry_eq (directory entry : Text) :
    Resolution.ofEntry other directory entry = Resolution.ofEntry tree directory entry := by
  simp only [Resolution.ofEntry, h.isDirectory_eq, h.files_eq, h.hasPath_eq, h.isFile_eq]

theorem ofEntries_eq (directory : Text) (entries : List Text) :
    Resolution.ofEntries other directory entries = Resolution.ofEntries tree directory entries := by
  simp only [Resolution.ofEntries, h.ofEntry_eq]

theorem ofConfig_eq (directory : Text) (config : Config) :
    ProjectReport.ofConfig other directory config =
      ProjectReport.ofConfig tree directory config := by
  induction config with
  | nil => rfl
  | cons head rest ih =>
      obtain ⟨name, entries⟩ := head
      simp only [ProjectReport.ofConfig, h.ofEntries_eq, ProjectReport.documentFiles, h.readText_eq,
        ih]

theorem ofPath_eq (path : Text) :
    ProjectReport.ofPath other path = ProjectReport.ofPath tree path := by
  have hload : Config.load other path = Config.load tree path := by
    rw [Config.load, Config.load, h.readText_eq]
  have hdirectory : Config.directory other path = Config.directory tree path := by
    rw [Config.directory, Config.directory, FileTree.workingPath, FileTree.workingPath, h.working]
  simp only [ProjectReport.ofPath, hload, hdirectory, h.ofConfig_eq]

end FileTree.Relists

/-! ## All entries -/

open Resolution ProjectReport

/-- **Each entry is resolved for itself.** The files, errors and warnings of a list of entries are
those of its parts, one behind the other. All that is listed are files, and the order in which
directories list what they hold changes neither what entries resolve to nor the report of a project.
Without the entries that its errors were reported about, a project has the same documentation and no
errors, be the entries taken out of a configuration or out of the file that it is read from. -/
theorem entries_resolve_alone (tree : FileTree) :
    (∀ directory first second,
      let resolve := ofEntries tree directory
      (resolve (first ++ second)).files = (resolve first).files ++ (resolve second).files ∧
        (resolve (first ++ second)).errors = (resolve first).errors ++ (resolve second).errors ∧
        (resolve (first ++ second)).warnings =
          (resolve first).warnings ++ (resolve second).warnings) ∧
      (∀ directory entries, ∀ path ∈ (ofEntries tree directory entries).files,
        tree.isFile path = true) ∧
      (∀ other, tree.Relists other →
        (∀ directory entries,
            ofEntries other directory entries = ofEntries tree directory entries) ∧
          ∀ path, ofPath other path = ofPath tree path) ∧
      (∀ directory config,
        let report := ofConfig tree directory config
        let left := ofConfig tree directory (config.withoutReported tree directory report.errors)
        left.result = report.result ∧ ∀ doc, report.result = .ok doc →
          report.errors =
              config.flatMap (fun (_, entries) => (ofEntries tree directory entries).errors) ∧
            left.errors = []) ∧
      ∀ path other config, Config.load tree path = .ok config →
        Config.load tree other = .ok (config.withoutReported tree (Config.directory tree path)
          (ofPath tree path).errors) →
        Config.directory tree other = Config.directory tree path →
        (ofPath tree other).result = (ofPath tree path).result := by
  refine ⟨fun directory first second => ⟨files_append first second, ?_, ?_⟩,
    fun directory entries path hpath => ?_, fun other h => ⟨h.ofEntries_eq, h.ofPath_eq⟩,
    fun directory config => ⟨result_withoutReported tree directory _ config, fun doc hdoc =>
      ⟨errors_ofConfig hdoc, errors_withoutReported hdoc⟩⟩, ?_⟩
  · rw [Resolution.errors, notices_append, List.filter_append]
    rfl
  · rw [warnings, notices_append, List.map_append]
    rfl
  · obtain ⟨entry, -, hmem⟩ := List.mem_flatMap.mp hpath
    exact isFile_of_mem_files hmem
  · intro path other config hload hleft hdirectory
    simp only [ofPath, hload, hleft, hdirectory]
    exact result_withoutReported tree (Config.directory tree path) _ config

/-- A project of one file, and what was left of its configuration when the other entries had been
taken out. -/
def projectTree : FileTree where
  nodes :=
    [(["main.lua".toList], .file (Text.toUtf8 "function main() end".toList)),
      (["all.json".toList], .file (Text.toUtf8
        "\x7b\"game\": [\"gone.lua\", \"main.lua\", \"lib/*.lua\"]\x7d".toList)),
      (["left.json".toList], .file (Text.toUtf8 "\x7b\"game\": [\"main.lua\"]\x7d".toList))]
  distinct := by decide

/-- The same files listed the other way round. -/
def reversedTree : FileTree where
  nodes := projectTree.nodes.reverse
  distinct := by decide

theorem projectTree_reports :
    let report := ofPath projectTree "all.json".toList
    report.errors = [.fileNotFound "/gone.lua".toList, .directoryNotFound "/lib/".toList] ∧
      ofPath reversedTree "all.json".toList = report ∧
      (ofPath projectTree "left.json".toList).result = report.result ∧
      report.result =
        .ok ⟨[{ name := "game".toList, functions := [{ name := "main".toList }] }]⟩ := by
  intro report
  have herrors : report.errors =
      [.fileNotFound "/gone.lua".toList, .directoryNotFound "/lib/".toList] := by
    decide +kernel
  obtain ⟨-, -, hlisted, -, hleft⟩ := entries_resolve_alone projectTree
  have hreversed : projectTree.Relists reversedTree := ⟨List.reverse_perm _, rfl⟩
  have hload : Config.load projectTree "all.json".toList =
      .ok [("game".toList, ["gone.lua".toList, "main.lua".toList, "lib/*.lua".toList])] := by
    decide +kernel
  refine ⟨herrors, (hlisted reversedTree hreversed).2 _, ?_, by decide +kernel⟩
  refine hleft "all.json".toList "left.json".toList _ hload ?_ (by decide +kernel)
  rw [herrors]
  decide +kernel

end LuaReference
