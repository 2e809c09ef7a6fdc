import LuaReference.Files.Tree
import LuaReference.Proofs.Results
import Mathlib.Data.List.DropRight

set_option autoImplicit false

/-! # What is written to a file

Writing to a path changes a file tree at one place, at which no directory stood, and the path leads
there afterwards, to a file of the bytes that were written (`writes_of_writeText`). This needs that
the way to the file stays open: where a component of a path leads, it still leads after a file has
been put into the tree (`follow_put_file`).
-/

namespace LuaReference.FileTree

variable {tree : FileTree} {place other : Place} {node : Node} {bytes : List UInt8}

/-! ## Putting nodes -/

theorem lookup_cons_eq (place other : Place) (node : Node) (nodes : List (Place × Node)) :
    ((place, node) :: nodes).lookup other =
      if other = place then some node else nodes.lookup other := by
  rw [List.lookup_cons]
  by_cases h : other = place
  · rw [if_pos h, beq_iff_eq.mpr h]
  · rw [if_neg h, beq_eq_false_iff_ne.mpr h]

theorem lookup_putNode (place other : Place) (node : Node) (nodes : List (Place × Node)) :
    (putNode place node nodes).lookup other =
      if other = place then some node else nodes.lookup other := by
  induction nodes with
  | nil => rw [putNode, lookup_cons_eq]
  | cons head rest ih =>
      obtain ⟨first, kept⟩ := head
      rw [putNode]
      by_cases hfirst : first = place
      · rw [if_pos hfirst, lookup_cons_eq, lookup_cons_eq, hfirst]
        split <;> rfl
      · rw [if_neg hfirst, lookup_cons_eq, ih, lookup_cons_eq]
        by_cases h : other = first
        · rw [if_pos h, if_pos h, if_neg (h ▸ hfirst)]
        · rw [if_neg h, if_neg h]

/-- The root is a directory whatever is put, every other place holds what was put there last. -/
theorem find?_put (hne : place ≠ []) (tree : FileTree) (node : Node) (other : Place) :
    (tree.put place node).find? other = if other = place then some node else tree.find? other := by
  cases other with
  | nil => rw [if_neg (Ne.symm hne)]; rfl
  | cons name more => exact lookup_putNode place (name :: more) node tree.nodes

/-- Two trees that differ in what stands at one place, and in nothing else. -/
structure ChangesOnly (place : Place) (before after : FileTree) : Prop where
  working : after.working = before.working
  find? : ∀ other, other ≠ place → after.find? other = before.find? other

theorem changesOnly_put (hne : place ≠ []) (tree : FileTree) (node : Node) :
    ChangesOnly place tree (tree.put place node) :=
  ⟨rfl, fun other hother => by rw [find?_put hne, if_neg hother]⟩

/-! ## Ways through the tree -/

theorem isSome_find?_put (hne : place ≠ []) (node : Node) (h : (tree.find? other).isSome) :
    ((tree.put place node).find? other).isSome := by
  rw [find?_put hne]
  split
  · rfl
  · exact h

section File

variable (hne : place ≠ []) (hfree : tree.isDirectoryAt place = false) (bytes : List UInt8)

include hne hfree

/-- A file takes no directory away and adds none. -/
theorem isDirectoryAt_put_file (other : Place) :
    (tree.put place (.file bytes)).isDirectoryAt other = tree.isDirectoryAt other := by
  by_cases h : other = place
  · subst h
    rw [hfree, isDirectoryAt, find?_put hne, if_pos rfl]
    rfl
  · rw [isDirectoryAt, isDirectoryAt, find?_put hne, if_neg h]

/-- Where a component leads, it still leads with one more file. -/
theorem follow_put_file {start next : Place} {component : Text}
    (h : tree.follow start component = .ok next) :
    (tree.put place (.file bytes)).follow start component = .ok next := by
  rw [follow] at h
  rw [follow, isDirectoryAt_put_file hne hfree]
  split_ifs at h with hopen hsame hparent hlength hsome
  · rwa [if_neg hopen, if_pos hsame]
  · rwa [if_neg hopen, if_neg hsame, if_pos hparent]
  · rwa [if_neg hopen, if_neg hsame, if_neg hparent, if_neg hlength,
      if_pos (isSome_find?_put hne _ hsome)]

theorem foldlM_follow_put_file {components : List Text} {start next : Place}
    (h : components.foldlM tree.follow start = .ok next) :
    components.foldlM (tree.put place (.file bytes)).follow start = .ok next := by
  induction components generalizing start with
  | nil => exact h
  | cons component components ih =>
      rw [List.foldlM_cons] at h ⊢
      cases hstep : tree.follow start component with
      | error error => rw [hstep] at h; cases h
      | ok middle =>
          rw [hstep] at h
          rw [follow_put_file hne hfree bytes hstep]
          exact ih h

end File

/-! ## Writing -/

/-- What a path has to be for a file to be written there: the way to a directory, and the name of
the file in it. -/
structure WritesTo (tree : FileTree) (path : Text) (directory : Place) (name : Text) : Prop where
  noNull : path.contains '\x00' = false
  nonempty : path.isEmpty = false
  short : ¬ 4095 < byteLength path
  split : ∃ way, Text.splitAtEach '/' path = way ++ [name] ∧
    way.foldlM tree.follow (tree.start path) = .ok directory
  isDirectory : tree.isDirectoryAt directory = true
  named : name ≠ [] ∧ name ≠ ['.'] ∧ name ≠ ['.', '.']
  shortName : ¬ 255 < byteLength name
  free : tree.isDirectoryAt (directory ++ [name]) = false

theorem splitAtEach_ne_nil (mark : Char) (text : Text) : Text.splitAtEach mark text ≠ [] := by
  cases text with
  | nil => simp [Text.splitAtEach]
  | cons c text =>
      rw [Text.splitAtEach]
      split
      · simp
      · split <;> simp

theorem dropTrailingSlashes_eq_self {path : Text} (h : path.getLast? ≠ some '/') :
    Path.dropTrailingSlashes path = path := by
  have hdrop : path.rdropWhile (fun c => decide (c = '/')) = path := by
    rw [List.rdropWhile_eq_self_iff]
    intro hne hlast
    rw [List.getLast?_eq_some_getLast hne] at h
    exact h (congrArg some (of_decide_eq_true hlast))
  exact hdrop

variable {path : Text}

theorem writesTo_of_writablePlace (h : tree.writablePlace path = .ok place) :
    ∃ directory name, place = directory ++ [name] ∧ WritesTo tree path directory name := by
  rw [writablePlace] at h
  split_ifs at h with hnull hempty hlength hslash
  · -- a slash at the end leaves no name
    obtain ⟨directory, -, h⟩ := bind_eq_ok h
    rw [writableIn] at h
    split_ifs at h with hdirectory hname
    exact absurd rfl hname
  · obtain ⟨directory, hway, h⟩ := bind_eq_ok h
    rw [dropTrailingSlashes_eq_self hslash] at hway h
    rw [writableIn] at h
    split_ifs at h with hdirectory hname hshort hfree
    have hsplit := List.dropLast_append_getLast (splitAtEach_ne_nil '/' path)
    have hlast : (Text.splitAtEach '/' path).getLastD [] =
        (Text.splitAtEach '/' path).getLast (splitAtEach_ne_nil '/' path) := by
      rw [List.getLastD_eq_getLast?, List.getLast?_eq_some_getLast, Option.getD_some]
    rw [← hlast] at hsplit
    refine ⟨directory, _, (Except.ok.inj h).symm, ?_⟩
    exact
      { noNull := by simpa using hnull
        nonempty := by simpa using hempty
        short := hlength
        split := ⟨_, hsplit.symm, hway⟩
        isDirectory := by simpa using hdirectory
        named := by simpa using hname
        shortName := hshort
        free := by simpa using hfree }

/-- The path leads to what was put there. -/
theorem WritesTo.locate_put {directory : Place} {name : Text}
    (h : WritesTo tree path directory name) (bytes : List UInt8) :
    (tree.put (directory ++ [name]) (.file bytes)).locate path = .ok (directory ++ [name]) := by
  obtain ⟨way, hsplit, hway⟩ := h.split
  have hdirectory : way.foldlM (tree.put (directory ++ [name]) (.file bytes)).follow
      (tree.start path) = .ok directory := foldlM_follow_put_file (by simp) h.free bytes hway
  have hname : (tree.put (directory ++ [name]) (.file bytes)).follow directory name =
      .ok (directory ++ [name]) := by
    rw [follow, isDirectoryAt_put_file (by simp) h.free, h.isDirectory, find?_put (by simp),
      if_pos rfl]
    simp [h.named, h.shortName]
  rw [locate, h.noNull, h.nonempty, if_neg (by simp), if_neg (by simp), if_neg h.short, hsplit,
    List.foldlM_append]
  refine (congrArg (· >>= _) hdirectory).trans ?_
  rw [ok_bind, List.foldlM_cons, hname]
  rfl

/-- Writing bytes to a path: the path leads to a file of the bytes afterwards, at a place where no
directory stood, and nothing changes at another place. -/
structure Writes (before : FileTree) (path : Text) (bytes : List UInt8) (after : FileTree) :
    Prop where
  readBytes : after.readBytes path = .ok bytes
  exists_place : ∃ place, after.locate path = .ok place ∧ before.isDirectoryAt place = false ∧
    ChangesOnly place before after

/-- **Writing to a path changes the file there and nothing else.** -/
theorem writes_of_writeText {text : Text} {written : FileTree}
    (h : tree.writeText path text = .ok written) :
    Writes tree path (Text.toUtf8 text) written := by
  obtain ⟨place, hplace, h⟩ := bind_eq_ok h
  obtain rfl := Except.ok.inj h
  obtain ⟨directory, name, rfl, hwrites⟩ := writesTo_of_writablePlace hplace
  have hne : directory ++ [name] ≠ [] := by simp
  have hlocate := hwrites.locate_put (Text.toUtf8 text)
  constructor
  · rw [FileTree.readBytes, hlocate, ok_bind, find?_put hne, if_pos rfl]
  · exact ⟨directory ++ [name], hlocate, hwrites.free, changesOnly_put hne tree _⟩

end LuaReference.FileTree
