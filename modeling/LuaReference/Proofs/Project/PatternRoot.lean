import LuaReference.Proofs.Files.Ways
import LuaReference.Proofs.Project.Overlap
import Mathlib.Data.List.DropRight

set_option autoImplicit false

/-! # The directory of a pattern

A pattern is resolved in two readings. One asks whether the directory in front of the first star or
question mark is there, and takes the text in front of it as it stands. The other one searches, from
the first component with a wildcard on, and to it a bracket is a wildcard and a backslash is none.

What the search finds lies below the directory that it starts from (`isDirectory_of_mem_expand`).
So the first reading hides nothing as long as both mean the same directory
(`matches_resolved`): if there is no wildcard in the path of the directory, no backslash between its
last slash and the first wildcard, and if the path is not too long to be followed. Each of these is
needed (`hidden_matches`).
-/

namespace LuaReference

/-! ## Parts and their separators -/

namespace Text

variable {mark : Char}

/-- The first part goes up to the first separator. -/
theorem exists_splitAtEach_eq (mark : Char) (text : Text) :
    ∃ more, splitAtEach mark text = text.takeWhile (· ≠ mark) :: more := by
  induction text with
  | nil => exact ⟨[], rfl⟩
  | cons c rest ih =>
      obtain ⟨more, hrest⟩ := ih
      by_cases hc : c = mark
      · exact ⟨splitAtEach mark rest, by simp [splitAtEach, hc]⟩
      · exact ⟨more, by simp [splitAtEach, hc, hrest]⟩

/-- Parts that are closed by separators make up the text and one more separator. -/
theorem flatMap_splitAtEach (text : Text) :
    (splitAtEach mark text).flatMap (· ++ [mark]) = text ++ [mark] := by
  induction text with
  | nil => rfl
  | cons c rest ih =>
      rw [splitAtEach]
      split
      · rename_i hc
        rw [List.flatMap_cons, ih, List.nil_append, hc]
        rfl
      · cases hparts : splitAtEach mark rest with
        | nil => exact absurd hparts (FileTree.splitAtEach_ne_nil mark rest)
        | cons part more =>
            rw [hparts] at ih
            exact congrArg (c :: ·) ih

/-- A part holds characters of the text. -/
theorem mem_of_mem_splitAtEach {text part : Text} (hpart : part ∈ splitAtEach mark text) {c : Char}
    (hc : c ∈ part) : c ∈ text := by
  have hmem : c ∈ text ++ [mark] := by
    rw [← flatMap_splitAtEach text]
    exact List.mem_flatMap.mpr ⟨part, hpart, List.mem_append_left _ hc⟩
  rcases List.mem_append.mp hmem with hmem | hmem
  · exact hmem
  · rw [List.mem_singleton.mp hmem] at hc
    exact absurd hc (not_mem_of_mem_splitAtEach hpart)

end Text

namespace Path

/-- Slashes are all that the path of a directory has more than the one in front of its entries. -/
theorem exists_asDirectory_append (path : Text) :
    ∃ slashes : Text, (∀ c ∈ slashes, c = '/') ∧ path = asDirectory path ++ slashes := by
  rw [asDirectory]
  split
  · exact ⟨[], by simp, (List.append_nil path).symm⟩
  · refine ⟨path.rtakeWhile (· = '/'), fun c hc => ?_, List.rdropWhile_append_rtakeWhile.symm⟩
    rw [List.rtakeWhile, List.mem_reverse] at hc
    have hslash := List.mem_takeWhile_imp hc
    exact of_decide_eq_true hslash

theorem asDirectory_append {path slashes : Text} (hne : path ≠ [])
    (h : path.getLast? ≠ some '/') (hslashes : ∀ c ∈ slashes, c = '/') :
    asDirectory (path ++ slashes) = path := by
  have hdrop : dropTrailingSlashes (path ++ slashes) = path := by
    have hrest := FileTree.dropTrailingSlashes_eq_self h
    rw [dropTrailingSlashes] at hrest ⊢
    rw [List.reverse_append, List.dropWhile_append_of_pos]
    · exact hrest
    · intro c hc
      exact decide_eq_true (hslashes c (List.mem_reverse.mp hc))
  rw [asDirectory, hdrop]
  cases path with
  | nil => exact absurd rfl hne
  | cons c rest => rfl

theorem asDirectory_ne_nil {path : Text} (h : path ≠ []) : asDirectory path ≠ [] := by
  rw [asDirectory]
  split
  · exact h
  · assumption

theorem suffix_join (directory path : Text) : path <:+ join directory path := by
  rw [join]
  split
  · exact List.suffix_rfl
  · split
    · exact List.suffix_append _ _
    · exact ⟨directory ++ ['/'], by simp⟩

/-- What stands behind the beginning of a path is not looked at when it is joined. -/
theorem join_append {part : Text} (hne : part ≠ []) (directory rest : Text) :
    join directory (part ++ rest) = join directory part ++ rest := by
  have habsolute : isAbsolute (part ++ rest) = isAbsolute part := by
    rw [isAbsolute, isAbsolute, List.head?_append_of_ne_nil _ hne]
  rw [join, join, habsolute]
  split
  · rfl
  · split
    · exact (List.append_assoc _ _ _).symm
    · exact (List.append_assoc _ ('/' :: part) _).symm

end Path

/-! ## Slashes behind a directory -/

namespace FileTree

variable {tree : FileTree}

theorem byteLength_append (text other : Text) :
    byteLength (text ++ other) = byteLength text + byteLength other := by
  have hfrom (start : Nat) (text : Text) :
      text.foldl (fun length c => length + c.utf8Size) start = start + byteLength text := by
    induction text generalizing start with
    | nil => rfl
    | cons c rest ih =>
        rw [byteLength, List.foldl_cons, List.foldl_cons, ih, ih]
        omega
  rw [byteLength, List.foldl_append, hfrom]
  rfl

theorem length_le_byteLength (text : Text) : text.length ≤ byteLength text := by
  induction text with
  | nil => exact Nat.zero_le _
  | cons c rest ih =>
      have hc : byteLength [c] = c.utf8Size := Nat.zero_add _
      have hpos := c.utf8Size_pos
      rw [← List.singleton_append, byteLength_append, hc, List.length_append, List.length_singleton]
      omega

theorem isDirectory_iff {path : Text} :
    tree.isDirectory path = true ↔
      ∃ place, tree.locate path = .ok place ∧ tree.isDirectoryAt place = true := by
  rw [isDirectory, nodeAt?]
  cases tree.locate path with
  | error error => simp
  | ok place => simp [isDirectoryAt]

theorem isDirectory_of_long {path : Text} (h : 4095 < byteLength path) :
    tree.isDirectory path = false := by
  rw [isDirectory, nodeAt?, locate]
  split_ifs <;> rfl

/-- A slash behind a directory leads to the directory itself. -/
theorem isDirectory_append_slash {path : Text} (h : tree.isDirectory path = true)
    (hshort : byteLength (path ++ ['/']) ≤ 4095) : tree.isDirectory (path ++ ['/']) = true := by
  obtain ⟨place, hplace, hdirectory⟩ := isDirectory_iff.mp h
  obtain ⟨hne, hway⟩ := foldlM_of_locate hplace
  rw [locate] at hplace
  split_ifs at hplace with hnull hempty hlength
  have hstart : tree.start (path ++ ['/']) = tree.start path := by
    obtain ⟨c, rest, rfl⟩ := List.exists_cons_of_ne_nil hne
    rfl
  have hnone : (path ++ ['/']).contains '\x00' = false := by simpa using hnull
  have hlast : Text.splitAtEach '/' [] = [[]] := rfl
  refine isDirectory_iff.mpr ⟨place, ?_, hdirectory⟩
  rw [locate, hnone, if_neg (by simp), if_neg (by simp), if_neg (by omega), hstart,
    Text.splitAtEach_append_cons, hlast, List.foldlM_append, hway, ok_bind]
  simp [follow, hdirectory]

theorem isDirectory_append_slashes {path slashes : Text} (h : tree.isDirectory path = true)
    (hslashes : ∀ c ∈ slashes, c = '/') (hshort : byteLength (path ++ slashes) ≤ 4095) :
    tree.isDirectory (path ++ slashes) = true := by
  induction slashes generalizing path with
  | nil => rwa [List.append_nil]
  | cons c slashes ih =>
      rw [List.forall_mem_cons] at hslashes
      obtain ⟨rfl, hslashes⟩ := hslashes
      have hsplit : path ++ '/' :: slashes = path ++ ['/'] ++ slashes := by simp
      rw [hsplit] at hshort ⊢
      refine ih (isDirectory_append_slash h ?_) hslashes hshort
      rw [byteLength_append] at hshort
      omega

end FileTree

/-! ## Where a search starts -/

namespace Glob

open FileTree

variable {tree : FileTree}

/-- The search starts in front of the first component with a wildcard. -/
theorem splitPattern_append {front rest : Text} (hfront : hasWildcard front = false)
    (hrest : hasWildcard (rest.takeWhile (· ≠ '/')) = true) :
    splitPattern (front ++ '/' :: rest) =
      (Path.asDirectory (front ++ ['/']), (splitPattern rest).2) := by
  obtain ⟨more, hmore⟩ := Text.exists_splitAtEach_eq '/' rest
  have hparts : ∀ part ∈ Text.splitAtEach '/' front, (!hasWildcard part) = true := by
    intro part hpart
    rw [Bool.not_eq_true', hasWildcard, List.any_eq_false]
    intro c hc hwild
    have hyes : hasWildcard front = true :=
      List.any_eq_true.mpr ⟨c, Text.mem_of_mem_splitAtEach hpart hc, hwild⟩
    rw [hfront] at hyes
    cases hyes
  generalize rest.takeWhile (· ≠ '/') = first at hrest hmore
  have hliteral : (Text.splitAtEach '/' front ++ first :: more).takeWhile (!hasWildcard ·) =
      Text.splitAtEach '/' front := by
    rw [List.takeWhile_append_of_pos hparts, List.takeWhile_cons_of_neg (by simp [hrest]),
      List.append_nil]
  have hleft : (Text.splitAtEach '/' front ++ first :: more).dropWhile (!hasWildcard ·) =
      (first :: more).dropWhile (!hasWildcard ·) := List.dropWhile_append_of_pos hparts
  simp only [splitPattern, Text.splitAtEach_append_cons, hmore, hliteral, hleft,
    Text.flatMap_splitAtEach]

/-- Slashes that are repeated in front of a pattern change nothing of what is found. -/
theorem files_append_slashes {front slashes rest : Text} (hfront : hasWildcard front = false)
    (hne : front ≠ []) (hlast : front.getLast? ≠ some '/') (hslashes : ∀ c ∈ slashes, c = '/')
    (hrest : hasWildcard (rest.takeWhile (· ≠ '/')) = true) :
    files tree (front ++ slashes ++ '/' :: rest) = files tree (front ++ '/' :: rest) := by
  have hslashed : hasWildcard (front ++ slashes) = false := by
    rw [hasWildcard, List.any_append, Bool.or_eq_false_iff]
    refine ⟨hfront, List.any_eq_false.mpr fun c hc => ?_⟩
    rw [hslashes c hc]
    decide
  have hmore : ∀ c ∈ slashes ++ ['/'], c = '/' := by simpa [or_imp, forall_and] using hslashes
  rw [files, files, splitPattern_append hfront hrest, splitPattern_append hslashed hrest,
    Path.asDirectory_append hne hlast (by simp), List.append_assoc,
    Path.asDirectory_append hne hlast hmore]

theorem splitPattern_ne_nil {rest : Text} (h : hasWildcard (rest.takeWhile (· ≠ '/')) = true) :
    (splitPattern rest).2 ≠ [] := by
  obtain ⟨more, hmore⟩ := Text.exists_splitAtEach_eq '/' rest
  generalize rest.takeWhile (· ≠ '/') = first at h hmore
  have hne : first ≠ [] := by
    rintro rfl
    cases h
  simp only [splitPattern, hmore]
  rw [List.dropWhile_cons_of_neg (by simp [h])]
  simp [hne]

theorem relative_of_mem_entries (hnames : tree.WellNamed) {onlyDirectories : Bool}
    {directory component entry : Text} (hcomponent : '/' ∉ component)
    (h : entry ∈ entries tree onlyDirectories directory component) :
    Path.isAbsolute entry = false := by
  have hpart {text : Text} (hslash : '/' ∉ text) : Path.isAbsolute text = false := by
    rw [Path.isAbsolute, decide_eq_false_iff_not]
    exact fun hhead => hslash (List.mem_of_head? hhead)
  rcases entry_cases hnames h with ⟨-, rfl | ⟨names, hne, hall, rfl⟩⟩ | ⟨-, ⟨-, hname⟩ | rfl⟩
  · rfl
  · exact (leadsDown_names hne hall).relative
  · exact hpart hname.noSlash
  · exact hpart hcomponent

/-- What is found in a directory and leads somewhere tells that what is listed is a directory. -/
theorem isDirectory_of_mem_entries (hnames : tree.WellNamed) {onlyDirectories : Bool}
    {directory component entry : Text} {place : Place} (hcomponent : '/' ∉ component)
    (h : entry ∈ entries tree onlyDirectories directory component)
    (hplace : tree.locate (listed (Path.join directory entry)) = .ok place) :
    tree.isDirectory (listed directory) = true := by
  obtain ⟨middle, hmiddle⟩ := exists_locate_of_mem_entries h
  have hway := foldlM_of_listed_join hmiddle (relative_of_mem_entries hnames hcomponent h) hplace
  obtain ⟨first, more, hsplit⟩ :=
    List.exists_cons_of_ne_nil (splitAtEach_ne_nil '/' entry)
  rw [hsplit, List.foldlM_cons] at hway
  obtain ⟨next, hnext, -⟩ := bind_eq_ok hway
  refine isDirectory_iff.mpr ⟨middle, hmiddle, ?_⟩
  by_contra hno
  rw [follow, if_pos (by simpa using hno)] at hnext
  cases hnext

/-- **What a search finds lies below a directory that it started from.** -/
theorem isDirectory_of_mem_expand (hnames : tree.WellNamed) {directories components : List Text}
    {path : Text} {place : Place} (hne : components ≠ [])
    (hcomponents : ∀ component ∈ components, '/' ∉ component)
    (hpath : path ∈ expand tree directories components)
    (hplace : tree.locate (listed path) = .ok place) :
    ∃ directory ∈ directories, tree.isDirectory (listed directory) = true := by
  induction components generalizing directories with
  | nil => exact absurd rfl hne
  | cons component rest ih =>
      rw [List.forall_mem_cons] at hcomponents
      -- the path that leads to `path`, which is `path` itself behind the last component
      have hnext : ∃ next place, next ∈ behind tree (!rest.isEmpty) directories component ∧
          tree.locate (listed next) = .ok place := by
        cases rest with
        | nil => exact ⟨path, place, hpath, hplace⟩
        | cons second rest =>
            obtain ⟨next, hnext, hdirectory⟩ := ih (List.cons_ne_nil _ _) hcomponents.2 hpath
            obtain ⟨middle, hmiddle, -⟩ := isDirectory_iff.mp hdirectory
            exact ⟨next, middle, hnext, hmiddle⟩
      obtain ⟨next, middle, hnext, hmiddle⟩ := hnext
      obtain ⟨directory, hdirectory, hnext⟩ := List.mem_flatMap.mp hnext
      obtain ⟨entry, hentry, rfl⟩ := List.mem_map.mp hnext
      exact ⟨directory, hdirectory,
        isDirectory_of_mem_entries hnames hcomponents.1 hentry hmiddle⟩

/-- A pattern that matches a file starts in a directory. -/
theorem isDirectory_of_files_ne_nil (hnames : tree.WellNamed) {pattern : Text}
    (hcomponents : (splitPattern pattern).2 ≠ []) (h : files tree pattern ≠ []) :
    tree.isDirectory (listed (splitPattern pattern).1) = true := by
  obtain ⟨path, hpath⟩ := List.exists_mem_of_ne_nil _ h
  have hfound := List.mem_filter.mp ((List.mergeSort_perm _ _).subset hpath)
  obtain ⟨place, hplace⟩ : ∃ place, tree.locate path = .ok place := by
    have hfile := hfound.2
    rw [FileTree.isFile, FileTree.nodeAt?] at hfile
    cases hplace : tree.locate path with
    | error error => simp [hplace] at hfile
    | ok place => exact ⟨place, rfl⟩
  obtain ⟨directory, hdirectory, hyes⟩ := isDirectory_of_mem_expand hnames hcomponents
    (fun _ hmem => noSlash_splitPattern hmem) hfound.1 ((listed_of_locate hplace).symm ▸ hplace)
  rwa [List.mem_singleton.mp hdirectory] at hyes

end Glob

/-! ## The two readings of a pattern -/

namespace Resolution

open FileTree (byteLength)

variable {tree : FileTree} {directory entry root : Text}

/-- The text of a pattern in front of its first star or question mark. -/
def front (entry : Text) : Text := entry.takeWhile (!isPatternChar ·)

/-- The directory in front of a pattern is the one that its search starts from: there is no wildcard
in its path, the last separator in front of the pattern's first wildcard is a slash, and the path
can be followed. -/
structure IsSearchRoot (directory entry root : Text) : Prop where
  noWildcard : Glob.hasWildcard root = false
  noBackslash : '\\' ∉ (front entry).rtakeWhile (· ≠ '/')
  nonempty : directory ≠ []
  short : byteLength root ≤ 4095

/-- Where no backslash comes behind the last slash, the directory part ends at the slash. -/
theorem dropWhile_isSlash {text : Text} (h : '\\' ∉ text.takeWhile (· ≠ '/')) :
    text.dropWhile (!isSlash ·) = text.dropWhile (· ≠ '/') := by
  induction text with
  | nil => rfl
  | cons c rest ih =>
      by_cases hslash : c = '/'
      · subst hslash
        rfl
      · rw [List.takeWhile_cons_of_pos (by simpa using hslash), List.mem_cons, not_or] at h
        have hpart : (!isSlash c) = true := by simp [isSlash, hslash, Ne.symm h.1]
        rw [List.dropWhile_cons, if_pos hpart, ih h.2, List.dropWhile_cons_of_pos]
        simpa using hslash

/-- The directory is then what is written in front of the last slash, slash included. -/
theorem root?_eq (directory : Text) (hpattern : isPattern entry = true)
    (h : '\\' ∉ (front entry).rtakeWhile (· ≠ '/')) :
    root? directory entry =
      match (front entry).rdropWhile (· ≠ '/') with
      | [] => some directory
      | part => some (Path.join directory part) := by
  rw [List.rtakeWhile, List.mem_reverse] at h
  rw [List.rdropWhile, ← dropWhile_isSlash h, root?, if_pos hpattern]
  rfl

/-- The directory of a pattern that has a star behind its last slash. -/
theorem root?_append_star {part : Text} (hpart : isPattern part = false) (directory rest : Text) :
    root? directory (part ++ '/' :: '*' :: rest) = some (Path.join directory (part ++ ['/'])) := by
  have hall : ∀ c ∈ part ++ ['/'], (!isPatternChar c) = true := by
    intro c hc
    rcases List.mem_append.mp hc with hc | hc
    · simpa using List.any_eq_false.mp hpart c hc
    · rw [List.mem_singleton.mp hc]
      rfl
  have hpattern : isPattern (part ++ '/' :: '*' :: rest) = true :=
    List.any_eq_true.mpr ⟨'*', by simp, rfl⟩
  have hfront : (part ++ '/' :: '*' :: rest).takeWhile (!isPatternChar ·) = part ++ ['/'] := by
    rw [← List.singleton_append, ← List.append_assoc, List.takeWhile_append_of_pos hall,
      List.takeWhile_cons_of_neg (by decide), List.append_nil]
  rw [root?, if_pos hpattern, hfront]
  simp [isSlash]

/-- Behind it the component of the first wildcard follows. -/
theorem exists_eq_append (hpattern : isPattern entry = true) :
    ∃ rest, entry = (front entry).rdropWhile (· ≠ '/') ++ rest ∧
      Glob.hasWildcard (rest.takeWhile (· ≠ '/')) = true := by
  obtain ⟨mark, hmark, hwild⟩ := List.any_eq_true.mp hpattern
  have hsplit : front entry ++ entry.dropWhile (!isPatternChar ·) = entry :=
    List.takeWhile_append_dropWhile
  cases hbehind : entry.dropWhile (!isPatternChar ·) with
  | nil =>
      have hall := List.dropWhile_eq_nil_iff.mp hbehind mark hmark
      rw [hwild] at hall
      cases hall
  | cons first more =>
      have hfirst : isPatternChar first = true := by
        have hhead := List.head?_dropWhile_not (!isPatternChar ·) entry
        rw [hbehind] at hhead
        simpa using hhead
      have hslash : first ≠ '/' := by
        rintro rfl
        cases hfirst
      have hname : ∀ c ∈ (front entry).rtakeWhile (· ≠ '/'), decide (c ≠ '/') = true := by
        intro c hc
        rw [List.rtakeWhile, List.mem_reverse] at hc
        have hpart := List.mem_takeWhile_imp hc
        exact hpart
      have hmarked : ['*', '?', '['].contains first = true := by
        rw [isPatternChar, Bool.or_eq_true, decide_eq_true_iff, decide_eq_true_iff] at hfirst
        rcases hfirst with rfl | rfl <;> rfl
      refine ⟨(front entry).rtakeWhile (· ≠ '/') ++ first :: more, ?_, ?_⟩
      · rw [← List.append_assoc, List.rdropWhile_append_rtakeWhile, ← hbehind, hsplit]
      · rw [List.takeWhile_append_of_pos hname, List.takeWhile_cons, if_pos (by simpa using hslash),
          Glob.hasWildcard, List.any_append, List.any_cons, hmarked, Bool.true_or, Bool.or_true]

/-- A pattern that is divided where its search starts: behind `before` comes the first component
with a wildcard, and the path `root` leads to the same directory as `before`. -/
structure StartsBehind (pattern root before rest : Text) : Prop where
  pattern : pattern = before ++ '/' :: rest
  noWildcard : Glob.hasWildcard before = false
  hasWildcard : Glob.hasWildcard (rest.takeWhile (· ≠ '/')) = true
  root : ∃ slashes : Text, (∀ c ∈ slashes, c = '/') ∧
    root = Path.asDirectory (before ++ ['/']) ++ slashes

/-- A directory that is written with a slash at its end. -/
theorem startsBehind_of_slash {pattern before rest : Text} (hpattern : pattern = root ++ rest)
    (hroot : root = before ++ ['/']) (hplain : Glob.hasWildcard root = false)
    (hwild : Glob.hasWildcard (rest.takeWhile (· ≠ '/')) = true) :
    StartsBehind pattern root before rest where
  pattern := by rw [hpattern, hroot, List.append_assoc]; rfl
  noWildcard := by
    rw [hroot, Glob.hasWildcard, List.any_append, Bool.or_eq_false_iff] at hplain
    exact hplain.1
  hasWildcard := hwild
  root := by
    obtain ⟨slashes, hslashes, hpath⟩ := Path.exists_asDirectory_append (before ++ ['/'])
    exact ⟨slashes, hslashes, hroot.trans hpath⟩

/-- **Both readings mean the same directory.** -/
theorem IsSearchRoot.exists_startsBehind (h : IsSearchRoot directory entry root)
    (hroot : root? directory entry = some root) :
    ∃ before rest, StartsBehind (Path.join directory entry) root before rest := by
  have hpattern : isPattern entry = true := by
    rw [root?] at hroot
    split at hroot
    · assumption
    · cases hroot
  obtain ⟨rest, hentry, hwild⟩ := exists_eq_append hpattern
  rw [root?_eq directory hpattern h.noBackslash] at hroot
  generalize hpart : (front entry).rdropWhile (· ≠ '/') = part at hroot hentry
  cases part with
  | nil =>
      -- the pattern lies in the directory of the project itself
      obtain rfl := Option.some.inj hroot
      obtain rfl : entry = rest := hentry
      have hrelative : Path.isAbsolute entry = false := by
        rw [Path.isAbsolute, decide_eq_false_iff_not]
        intro hhead
        obtain ⟨more, rfl⟩ := List.head?_eq_some_iff.mp hhead
        cases hwild
      by_cases hlast : directory.getLast? = some '/'
      · obtain ⟨before, hbefore⟩ := List.getLast?_eq_some_iff.mp hlast
        refine ⟨before, entry, startsBehind_of_slash ?_ hbefore h.noWildcard hwild⟩
        rw [Path.join, hrelative, if_neg (by simp [h.nonempty]), if_pos hlast]
      · refine ⟨directory, entry, ?_, h.noWildcard, hwild, [], by simp, ?_⟩
        · rw [Path.join, hrelative, if_neg (by simp [h.nonempty]), if_neg hlast]
        · rw [Path.asDirectory_append h.nonempty hlast (by simp), List.append_nil]
  | cons c more =>
      have hjoin : Path.join directory entry = root ++ rest := by
        rw [hentry, Path.join_append (List.cons_ne_nil c more), Option.some.inj hroot]
      -- the directory part ends in the slash, and so does the path of the directory
      have hne : (front entry).rdropWhile (· ≠ '/') ≠ [] := hpart ▸ List.cons_ne_nil c more
      have hlast := List.rdropWhile_last_not (· ≠ '/') (front entry) hne
      have hslash : (c :: more).getLast (List.cons_ne_nil c more) = '/' := by
        simp only [hpart] at hlast
        simpa using hlast
      obtain ⟨part, hsuffix⟩ := Path.suffix_join directory (c :: more)
      have hbefore : root = part ++ (c :: more).dropLast ++ ['/'] := by
        rw [← Option.some.inj hroot, List.append_assoc, ← hslash, List.dropLast_append_getLast,
          hsuffix]
      exact ⟨_, rest, startsBehind_of_slash hjoin hbefore h.noWildcard hwild⟩

/-- A pattern whose directory is the one that its search starts from has this directory, if it
matches a file. -/
theorem IsSearchRoot.isDirectory (h : IsSearchRoot directory entry root) (hnames : tree.WellNamed)
    (hroot : root? directory entry = some root)
    (hfound : Glob.files tree (Path.join directory entry) ≠ []) : tree.isDirectory root = true := by
  obtain ⟨before, rest, hstarts⟩ := h.exists_startsBehind hroot
  obtain ⟨slashes, hslashes, hslashed⟩ := hstarts.root
  have hsplit : Glob.splitPattern (Path.join directory entry) =
      (Path.asDirectory (before ++ ['/']), (Glob.splitPattern rest).2) := by
    rw [hstarts.pattern, Glob.splitPattern_append hstarts.noWildcard hstarts.hasWildcard]
  have hdirectory := Glob.isDirectory_of_files_ne_nil hnames
    (by rw [hsplit]; exact Glob.splitPattern_ne_nil hstarts.hasWildcard) hfound
  rw [hsplit, Glob.listed_of_ne_nil (Path.asDirectory_ne_nil (by simp))] at hdirectory
  have hshort := h.short
  rw [hslashed] at hshort ⊢
  exact FileTree.isDirectory_append_slashes hdirectory hslashes hshort

theorem ofEntry_of_not_isDirectory (hroot : root? directory entry = some root)
    (h : tree.isDirectory root = false) :
    ofEntry tree directory entry = { notices := [.directoryNotFound root] } := by
  simp [ofEntry, hroot, h]

/-- What matches is what a pattern in a directory resolves to. -/
theorem ofEntry_of_isDirectory (hroot : root? directory entry = some root)
    (h : tree.isDirectory root = true)
    (hfound : Glob.files tree (Path.join directory entry) ≠ []) :
    ofEntry tree directory entry = { files := Glob.files tree (Path.join directory entry) } := by
  rw [ofEntry]
  simp only [hroot, h, Bool.not_true, Bool.false_eq_true, if_false]

end Resolution

open Resolution

/-- **When the check for the directory hides no match.** A pattern that matches files resolves to
them, with nothing noted, exactly if the path in front of its first wildcard leads to a directory
when it is taken as it stands. It does so if the search starts from that directory, and then the
directory of a pattern is reported missing only if the pattern matches nothing. -/
theorem matches_resolved {tree : FileTree} (hnames : tree.WellNamed) {directory entry root : Text}
    (hroot : root? directory entry = some root) :
    let found := Glob.files tree (Path.join directory entry)
    (found ≠ [] →
        (ofEntry tree directory entry = { files := found } ↔ tree.isDirectory root = true)) ∧
      (IsSearchRoot directory entry root →
        (found ≠ [] → ofEntry tree directory entry = { files := found }) ∧
          ∀ path, .directoryNotFound path ∈ (ofEntry tree directory entry).notices →
            found = []) := by
  intro found
  refine ⟨fun hfound => ⟨fun hresolved => ?_, fun hdirectory => ?_⟩,
    fun h => ⟨fun hfound => ?_, fun path hpath => ?_⟩⟩
  · by_contra hno
    rw [ofEntry_of_not_isDirectory hroot (by simpa using hno)] at hresolved
    cases congrArg Resolution.notices hresolved
  · exact ofEntry_of_isDirectory hroot hdirectory hfound
  · exact ofEntry_of_isDirectory hroot (h.isDirectory hnames hroot hfound) hfound
  · by_contra hfound
    rw [ofEntry_of_isDirectory hroot (h.isDirectory hnames hroot hfound) hfound] at hpath
    cases hpath

/-- A directory whose name a set can stand for, and a file with a backslash in its name. -/
def libraryTree : FileTree where
  nodes :=
    [(["lib1".toList], .directory), (["lib1".toList, "a.lua".toList], .file []),
      (["lib\\b.lua".toList], .file [])]
  distinct := by decide

theorem libraryTree_found :
    let entry := "lib1//*.lua".toList
    libraryTree.WellNamed ∧ root? "/".toList entry = some "/lib1//".toList ∧
      IsSearchRoot "/".toList entry "/lib1//".toList ∧
      ofEntry libraryTree "/".toList entry = { files := ["/lib1/a.lua".toList] } := by
  intro entry
  have hnames : libraryTree.WellNamed := by decide +kernel
  have hroot : root? "/".toList entry = some "/lib1//".toList := by decide +kernel
  have hsearch : IsSearchRoot "/".toList entry "/lib1//".toList :=
    ⟨by decide, by decide, by decide, by decide⟩
  have hfound : Glob.files libraryTree (Path.join "/".toList entry) = ["/lib1/a.lua".toList] :=
    Glob.files_eq_of_pairwise (by decide +kernel) (by decide)
  refine ⟨hnames, hroot, hsearch, ?_⟩
  have hresolved := ((matches_resolved hnames hroot).2 hsearch).1
  rw [hfound] at hresolved
  exact hresolved (by simp)

/-- Patterns that match a file and are resolved to none: a set in the path of the directory, a
backslash in front of the first wildcard, and a path of the directory that is too long. -/
theorem hidden_matches :
    let found (entry : Text) := Glob.files libraryTree (Path.join "/".toList entry)
    let slashes := List.replicate 4096 '/'
    found "lib[12]/*.lua".toList = ["/lib1/a.lua".toList] ∧
      ofEntry libraryTree "/".toList "lib[12]/*.lua".toList =
        { notices := [.directoryNotFound "/lib[12]/".toList] } ∧
      found "lib\\*.lua".toList = ["/lib\\b.lua".toList] ∧
      ofEntry libraryTree "/".toList "lib\\*.lua".toList =
        { notices := [.directoryNotFound "/lib\\".toList] } ∧
      found ("lib1".toList ++ slashes ++ "/*.lua".toList) = ["/lib1/a.lua".toList] ∧
      ofEntry libraryTree "/".toList ("lib1".toList ++ slashes ++ "/*.lua".toList) =
        { notices := [.directoryNotFound ("/lib1".toList ++ slashes ++ ['/'])] } := by
  intro found slashes
  have hslashes : ∀ c ∈ slashes, c = '/' := fun c hc => List.eq_of_mem_replicate hc
  refine ⟨Glob.files_eq_of_pairwise (by decide +kernel) (by decide), ?_,
    Glob.files_eq_of_pairwise (by decide +kernel) (by decide), ?_, ?_, ?_⟩
  · exact ofEntry_of_not_isDirectory (by decide +kernel) (by decide +kernel)
  · exact ofEntry_of_not_isDirectory (by decide +kernel) (by decide +kernel)
  · calc found ("lib1".toList ++ slashes ++ "/*.lua".toList)
        = Glob.files libraryTree ("/lib1".toList ++ slashes ++ '/' :: "*.lua".toList) := rfl
      _ = Glob.files libraryTree ("/lib1".toList ++ '/' :: "*.lua".toList) :=
          Glob.files_append_slashes (by decide) (by decide) (by decide) hslashes (by decide)
      _ = ["/lib1/a.lua".toList] := Glob.files_eq_of_pairwise (by decide +kernel) (by decide)
  · have hplain : isPattern ("lib1".toList ++ slashes) = false := by
      rw [isPattern, List.any_append, Bool.or_eq_false_iff]
      refine ⟨by decide, List.any_eq_false.mpr fun c hc => ?_⟩
      rw [hslashes c hc]
      decide
    have hlong : 4095 < FileTree.byteLength ("/lib1".toList ++ slashes ++ ['/']) := by
      have hlength := FileTree.length_le_byteLength slashes
      rw [List.length_replicate] at hlength
      rw [FileTree.byteLength_append, FileTree.byteLength_append]
      omega
    exact ofEntry_of_not_isDirectory (root?_append_star hplain "/".toList ".lua".toList)
      (FileTree.isDirectory_of_long hlong)

end LuaReference
