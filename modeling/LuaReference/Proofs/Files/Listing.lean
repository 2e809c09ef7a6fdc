import LuaReference.Files.Glob
import LuaReference.Project.Fault
import Mathlib.Data.List.Perm.Basic

set_option autoImplicit false

/-! # The order in which directories list

A file system gives the entries of a directory in any order. Two trees that hold the same files and
directories, and differ in that order alone, cannot be told apart: each path leads to the same place
in both (`Relists.locate_eq`), and a pattern matches the same files in the same order
(`Relists.files_eq`), since the paths are sorted and no two texts come in front of each other.
-/

namespace LuaReference

/-! ## Sorted texts -/

namespace Text

theorem precedes_total (text other : Text) :
    (precedes text other || precedes other text) = true := by
  induction text generalizing other with
  | nil => rfl
  | cons a text ih =>
      cases other with
      | nil => rfl
      | cons b other =>
          have hrest := ih other
          simp only [precedes, Bool.or_eq_true, Bool.and_eq_true, decide_eq_true_eq, beq_iff_eq]
            at hrest ⊢
          rcases Nat.lt_trichotomy a.toNat b.toNat with hlt | heq | hgt
          · exact .inl (.inl hlt)
          · exact hrest.imp (fun h => .inr ⟨heq, h⟩) fun h => .inr ⟨heq.symm, h⟩
          · exact .inr (.inl hgt)

theorem precedes_trans (first second third : Text) (h : precedes first second = true)
    (h' : precedes second third = true) : precedes first third = true := by
  induction first generalizing second third with
  | nil => rfl
  | cons a first ih =>
      cases second with
      | nil => cases h
      | cons b second =>
          cases third with
          | nil => cases h'
          | cons c third =>
              simp only [precedes, Bool.or_eq_true, Bool.and_eq_true, decide_eq_true_eq, beq_iff_eq]
                at h h' ⊢
              rcases h with h | ⟨hab, h⟩
              · exact .inl (by omega)
              · rcases h' with h' | ⟨hbc, h'⟩
                · exact .inl (by omega)
                · exact .inr ⟨hab.trans hbc, ih second third h h'⟩

theorem precedes_antisymm (text other : Text) (h : precedes text other = true)
    (h' : precedes other text = true) : text = other := by
  induction text generalizing other with
  | nil =>
      cases other with
      | nil => rfl
      | cons b other => cases h'
  | cons a text ih =>
      cases other with
      | nil => cases h
      | cons b other =>
          simp only [precedes, Bool.or_eq_true, Bool.and_eq_true, decide_eq_true_eq, beq_iff_eq]
            at h h'
          rcases h with hlt | ⟨heq, h⟩
          · rcases h' with hgt | ⟨heq, -⟩
            · exact absurd hgt (Nat.lt_asymm hlt)
            · exact absurd heq (Nat.ne_of_gt hlt)
          · rcases h' with hgt | ⟨-, h'⟩
            · exact absurd heq (Nat.ne_of_gt hgt)
            · rw [Char.toNat_inj.mp heq, ih other h h']

/-- Sorting forgets the order that texts come in. -/
theorem sorted_eq_of_perm {texts others : List Text} (h : texts.Perm others) :
    sorted texts = sorted others := by
  have hordered (texts : List Text) :
      (sorted texts).Pairwise fun text other => precedes text other = true :=
    List.pairwise_mergeSort precedes_trans precedes_total texts
  have hperm : (sorted texts).Perm (sorted others) :=
    (List.mergeSort_perm _ _).trans (h.trans (List.mergeSort_perm _ _).symm)
  exact List.Perm.eq_of_pairwise (fun text other _ _ => precedes_antisymm text other)
    (hordered texts) (hordered others) hperm

end Text

namespace FileTree

/-! ## Other listings -/

/-- The same files and directories, which the directories may list in another order. -/
structure Relists (tree other : FileTree) : Prop where
  nodes : other.nodes.Perm tree.nodes
  working : other.working = tree.working

/-- Where no place occurs twice, what is found at a place is what is listed with it. -/
theorem lookup_eq_some_iff_mem {nodes : List (Place × Node)} (h : (nodes.map Prod.fst).Nodup)
    (place : Place) (node : Node) : nodes.lookup place = some node ↔ (place, node) ∈ nodes := by
  induction nodes with
  | nil => simp
  | cons head rest ih =>
      obtain ⟨first, kept⟩ := head
      rw [List.map_cons, List.nodup_cons] at h
      rw [List.lookup_cons, List.mem_cons, Prod.mk.injEq]
      by_cases hplace : place = first
      · subst hplace
        have hrest : (place, node) ∉ rest := fun hmem =>
          h.1 (List.mem_map.mpr ⟨(place, node), hmem, rfl⟩)
        simp [hrest, eq_comm]
      · have hbeq : (place == first) = false := beq_eq_false_iff_ne.mpr hplace
        simp [hbeq, hplace, ih h.2]

namespace Relists

variable {tree other : FileTree} (h : tree.Relists other)

include h

theorem find?_eq (place : Place) : other.find? place = tree.find? place := by
  rw [find?, find?]
  split
  · rfl
  · ext node
    rw [lookup_eq_some_iff_mem other.distinct, lookup_eq_some_iff_mem tree.distinct,
      h.nodes.mem_iff]

theorem isDirectoryAt_eq (place : Place) :
    other.isDirectoryAt place = tree.isDirectoryAt place := by
  rw [isDirectoryAt, isDirectoryAt, h.find?_eq]

theorem follow_eq : other.follow = tree.follow := by
  funext place component
  rw [follow, follow, h.isDirectoryAt_eq, h.find?_eq]

/-- **Each path leads to the same place.** -/
theorem locate_eq (path : Text) : other.locate path = tree.locate path := by
  have hstart : other.start path = tree.start path := by rw [start, start, h.working]
  rw [locate, locate, h.follow_eq, hstart]

theorem nodeAt?_eq (path : Text) : other.nodeAt? path = tree.nodeAt? path := by
  rw [nodeAt?, nodeAt?, h.locate_eq]
  simp only [h.find?_eq]

theorem hasPath_eq (path : Text) : other.hasPath path = tree.hasPath path := by
  rw [hasPath, hasPath, h.nodeAt?_eq]

theorem isDirectory_eq (path : Text) : other.isDirectory path = tree.isDirectory path := by
  rw [isDirectory, isDirectory, h.nodeAt?_eq]

theorem isFile_eq : other.isFile = tree.isFile := by
  funext path
  rw [isFile, isFile, h.nodeAt?_eq]

theorem readText_eq (path : Text) : other.readText path = tree.readText path := by
  have hbytes : other.readBytes path = tree.readBytes path := by
    simp only [readBytes, h.locate_eq, h.find?_eq]
  rw [readText, readText, hbytes]

/-! ## Patterns -/

/-- The listings of one directory are permutations of each other. -/
theorem names_perm (directory : Place) : (other.names directory).Perm (tree.names directory) :=
  h.nodes.filterMap _

theorem below_perm (directory : Place) : (other.below directory).Perm (tree.below directory) :=
  h.nodes.filterMap _

theorem entries_perm (onlyDirectories : Bool) (directory component : Text) :
    (Glob.entries other onlyDirectories directory component).Perm
      (Glob.entries tree onlyDirectories directory component) := by
  rw [Glob.entries, Glob.entries, h.locate_eq]
  cases tree.locate (Glob.listed directory) with
  | error error => exact .refl _
  | ok place =>
      simp only [h.isDirectoryAt_eq, h.isDirectory_eq, h.hasPath_eq]
      split
      · exact (((h.below_perm place).filter _).map _).append_left _
      · split
        · exact (h.names_perm place).filter _
        · exact .refl _

theorem expand_perm {found others : List Text} (hfound : others.Perm found)
    (components : List Text) :
    (Glob.expand other others components).Perm (Glob.expand tree found components) := by
  induction components generalizing found others with
  | nil => exact hfound
  | cons component rest ih =>
      exact ih (hfound.flatMap fun directory _ => (h.entries_perm _ directory component).map _)

/-- **A pattern matches the same files in the same order.** -/
theorem files_eq (pattern : Text) : Glob.files other pattern = Glob.files tree pattern := by
  have hmatches := (h.expand_perm (.refl [(Glob.splitPattern pattern).1])
    (Glob.splitPattern pattern).2).filter tree.isFile
  rw [Glob.files, Glob.files, h.isFile_eq]
  exact Text.sorted_eq_of_perm hmatches

end Relists

end FileTree

end LuaReference
