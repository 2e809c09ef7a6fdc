import LuaReference.Files.Path
import LuaReference.Text.Utf8
import LuaReference.Text.Quoted

set_option autoImplicit false

/-! # File trees

A file tree holds files and directories, each at a place given by the names that lead to it
from the root, and knows the place relative paths start from. Following a path visits its
components one by one; every component but the last has to lead to a directory.
-/

namespace LuaReference

/-- A place in a file tree: the names that lead to it from the root. -/
abbrev Place := List Text

/-- What stands at a place. -/
inductive Node where
  | directory
  | file (bytes : List UInt8)
deriving DecidableEq

/-- Files and directories by their places. The root is always a directory. -/
structure FileTree where
  nodes : List (Place × Node) := []
  /-- The place relative paths start from. -/
  working : Place := []
  /-- No place occurs twice. -/
  distinct : (nodes.map Prod.fst).Nodup := by simp

/-- Why a path cannot be used. -/
inductive PathError where
  | missing
  | notDirectory
  | isDirectory
  | nameTooLong
  /-- It holds a null character, which no path may hold. -/
  | nullCharacter
deriving DecidableEq

namespace PathError

/-- The number of the error. -/
def code : PathError → Nat
  | .nullCharacter => 22
  | .missing => 2
  | .notDirectory => 20
  | .isDirectory => 21
  | .nameTooLong => 36

/-- The text of the error. -/
def text : PathError → Text
  | .missing => "No such file or directory".toList
  | .notDirectory => "Not a directory".toList
  | .isDirectory => "Is a directory".toList
  | .nameTooLong => "File name too long".toList
  | .nullCharacter => "embedded null byte".toList

/-- The message about a path. -/
def message (error : PathError) (path : Text) : Text :=
  "[Errno ".toList ++ Text.ofNat error.code ++ "] ".toList ++ error.text ++ ": ".toList ++
    Text.quoted path

end PathError

namespace FileTree

/-! ## Places -/

/-- What stands at a place. -/
def find? (tree : FileTree) (place : Place) : Option Node :=
  if place.isEmpty then some .directory else tree.nodes.lookup place

/-- Whether a directory stands at a place. -/
def isDirectoryAt (tree : FileTree) (place : Place) : Bool := tree.find? place = some .directory

/-- The name by which a place is reached directly from a directory. -/
def nameIn? (directory place : Place) : Option Text :=
  match directory.isPrefixOf? place with
  | some [name] => some name
  | _ => none

/-- The names in a directory. -/
def names (tree : FileTree) (directory : Place) : List Text :=
  tree.nodes.filterMap fun (place, _) => nameIn? directory place

/-- The ways from a directory to all that lies below it. -/
def below (tree : FileTree) (directory : Place) : List (List Text) :=
  tree.nodes.filterMap fun (place, _) =>
    match directory.isPrefixOf? place with
    | some (name :: more) => some (name :: more)
    | _ => none

/-! ## Putting nodes -/

/-- The nodes with one more, which replaces the one at its place. -/
def putNode (place : Place) (node : Node) : List (Place × Node) → List (Place × Node)
  | [] => [(place, node)]
  | (other, kept) :: rest =>
      if other = place then (place, node) :: rest else (other, kept) :: putNode place node rest

theorem mem_places_putNode {place other : Place} {node : Node} {nodes : List (Place × Node)}
    (h : other ∈ (putNode place node nodes).map Prod.fst) :
    other = place ∨ other ∈ nodes.map Prod.fst := by
  induction nodes with
  | nil => exact .inl (List.mem_singleton.mp h)
  | cons head rest ih =>
      obtain ⟨first, kept⟩ := head
      by_cases hp : first = place
      · rw [putNode, if_pos hp, List.map_cons, List.mem_cons] at h
        exact h.imp id (List.mem_cons_of_mem first)
      · rw [putNode, if_neg hp, List.map_cons, List.mem_cons] at h
        rcases h with rfl | h
        · exact .inr List.mem_cons_self
        · exact (ih h).imp id (List.mem_cons_of_mem first)

/-- Putting a node keeps the places distinct. -/
theorem putNode_nodup {place : Place} {node : Node} {nodes : List (Place × Node)}
    (h : (nodes.map Prod.fst).Nodup) : ((putNode place node nodes).map Prod.fst).Nodup := by
  induction nodes with
  | nil => simp [putNode]
  | cons head rest ih =>
      obtain ⟨first, kept⟩ := head
      rw [List.map_cons, List.nodup_cons] at h
      by_cases hp : first = place
      · subst hp
        rw [putNode, if_pos rfl, List.map_cons, List.nodup_cons]
        exact h
      · rw [putNode, if_neg hp, List.map_cons, List.nodup_cons]
        refine ⟨fun hmem => ?_, ih h.2⟩
        rcases mem_places_putNode hmem with rfl | hmem
        · exact hp rfl
        · exact h.1 hmem

/-- The tree with a node put at a place. -/
def put (tree : FileTree) (place : Place) (node : Node) : FileTree :=
  ⟨putNode place node tree.nodes, tree.working, putNode_nodup tree.distinct⟩

/-- The tree with directories at a place and at all places on the way to it. -/
def putDirectories (tree : FileTree) (place : Place) : FileTree :=
  (List.range place.length).foldl (fun tree n => tree.put (place.take (n + 1)) .directory) tree

/-- The tree with a file at a place and directories on the way to it. -/
def putFile (tree : FileTree) (place : Place) (bytes : List UInt8) : FileTree :=
  (tree.putDirectories place.dropLast).put place (.file bytes)

/-! ## Following paths -/

/-- The length of a text in bytes. -/
def byteLength (text : Text) : Nat :=
  text.foldl (fun length c => length + c.utf8Size) 0

/-- Follows one component of a path from a place. -/
def follow (tree : FileTree) (place : Place) (component : Text) : Except PathError Place :=
  if !tree.isDirectoryAt place then .error .notDirectory
  else if component = [] || component = ['.'] then .ok place
  else if component = ['.', '.'] then .ok place.dropLast
  else if 255 < byteLength component then .error .nameTooLong
  else if (tree.find? (place ++ [component])).isSome then .ok (place ++ [component])
  else .error .missing

/-- The place a path starts from. -/
def start (tree : FileTree) (path : Text) : Place :=
  if Path.isAbsolute path then [] else tree.working

/-- Follows a path to its place. -/
def locate (tree : FileTree) (path : Text) : Except PathError Place :=
  if path.contains '\x00' then .error .nullCharacter
  else if path.isEmpty then .error .missing
  else if 4095 < byteLength path then .error .nameTooLong
  else (Text.splitAtEach '/' path).foldlM tree.follow (tree.start path)

/-- What a path leads to. -/
def nodeAt? (tree : FileTree) (path : Text) : Option Node :=
  match tree.locate path with
  | .ok place => tree.find? place
  | .error _ => none

/-- Whether a path leads to something. -/
def hasPath (tree : FileTree) (path : Text) : Bool := (tree.nodeAt? path).isSome

/-- Whether a path leads to a directory. -/
def isDirectory (tree : FileTree) (path : Text) : Bool := tree.nodeAt? path = some .directory

/-- Whether a path leads to a file. -/
def isFile (tree : FileTree) (path : Text) : Bool :=
  match tree.nodeAt? path with
  | some (.file _) => true
  | _ => false

/-- The absolute path of the place that relative paths start from. -/
def workingPath (tree : FileTree) : Text := '/' :: Text.join ['/'] tree.working

/-! ## Reading and writing -/

/-- The bytes of the file that a path leads to. -/
def readBytes (tree : FileTree) (path : Text) : Except PathError (List UInt8) := do
  let place ← tree.locate path
  match tree.find? place with
  | some (.file bytes) => .ok bytes
  | some .directory => .error .isDirectory
  | none => .error .missing

/-- The place of a file that is to be written in a directory: nothing else than a file may stand
there. -/
def writableIn (tree : FileTree) (directory : Place) (name : Text) : Except PathError Place :=
  if !tree.isDirectoryAt directory then .error .notDirectory
  else if [[], ['.'], ['.', '.']].contains name then .error .isDirectory
  else if 255 < byteLength name then .error .nameTooLong
  else if tree.isDirectoryAt (directory ++ [name]) then .error .isDirectory
  else .ok (directory ++ [name])

/-- The place of a file that is to be written: its directory has to exist. A slash at the end stands
in front of no name. -/
def writablePlace (tree : FileTree) (path : Text) : Except PathError Place :=
  let components := Text.splitAtEach '/' (Path.dropTrailingSlashes path)
  let name := if path.getLast? = some '/' then [] else components.getLastD []
  if path.contains '\x00' then .error .nullCharacter
  else if path.isEmpty then .error .missing
  else if 4095 < byteLength path then .error .nameTooLong
  else do tree.writableIn (← components.dropLast.foldlM tree.follow (tree.start path)) name

/-- The tree with a text written to the file at a path. -/
def writeText (tree : FileTree) (path text : Text) : Except PathError FileTree := do
  return tree.put (← tree.writablePlace path) (.file (Text.toUtf8 text))

end FileTree

end LuaReference
