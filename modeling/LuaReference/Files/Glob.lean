import LuaReference.Files.Tree
import LuaReference.Files.Wildcard

set_option autoImplicit false

/-! # Path patterns

A path pattern is a path with wildcards in some of its components. From the first such
component on, each component is matched against the entries of the directories found so far;
two stars as a whole component stand for any way down through directories. An entry whose name
begins with a dot is passed over unless the component begins with a dot itself. A relative pattern
that begins with such a component goes on from the directory that relative paths start from.
-/

namespace LuaReference.Glob

/-- Whether a text holds a wildcard. -/
def hasWildcard (text : Text) : Bool := text.any ['*', '?', '['].contains

/-- The component that stands for any way down. -/
def anyDepth : Text := ['*', '*']

/-- Whether a name is passed over by wildcards. -/
def isHidden (name : Text) : Bool := name.head? = some '.'

/-- The part of a path in front of its first component with a wildcard, and the components from
there on. Repeated slashes between components count once, and slashes at the end stand for an
empty last component. -/
def splitPattern (pattern : Text) : Text × List Text :=
  let components := Text.splitAtEach '/' pattern
  let literal := components.takeWhile (!hasWildcard ·)
  let rest := components.dropWhile (!hasWildcard ·)
  let last := match rest.getLast? with
    | some [] => [[]]
    | _ => []
  (Path.asDirectory (literal.flatMap (· ++ ['/'])), rest.filter (!·.isEmpty) ++ last)

/-- The directory that is listed for what stands in front of a component: where nothing does, it
is the one that relative paths start from. -/
def listed (directory : Text) : Text := if directory.isEmpty then ['.'] else directory

theorem listed_of_ne_nil {directory : Text} (h : directory ≠ []) : listed directory = directory :=
  if_neg (by simpa using h)

/-- The entries of a directory that a component leads to, as they are written behind the
directory. Only directories count if more components follow. -/
def entries (tree : FileTree) (onlyDirectories : Bool) (directory component : Text) :
    List Text :=
  match tree.locate (listed directory) with
  | .error _ => []
  | .ok place =>
      let counts (way : List Text) : Bool := !onlyDirectories || tree.isDirectoryAt (place ++ way)
      if component = anyDepth then
        let ways := (tree.below place).filter fun way => !way.any isHidden && counts way
        (if tree.isDirectoryAt place then [[]] else []) ++ ways.map (Text.join ['/'])
      else if hasWildcard component then
        (tree.names place).filter fun name =>
          (isHidden component || !isHidden name) && counts [name] &&
            Wildcard.isMatch component name
      else if component.isEmpty then if tree.isDirectory directory then [[]] else []
      else if tree.hasPath (Path.join directory component) then [component]
      else []

/-- The paths that the components lead to from the directories found so far. -/
def expand (tree : FileTree) (directories : List Text) : List Text → List Text
  | [] => directories
  | component :: rest =>
      expand tree
        (directories.flatMap fun directory =>
          (entries tree (!rest.isEmpty) directory component).map (Path.join directory))
        rest

/-- The files that a path pattern matches, in the order of their paths. -/
def files (tree : FileTree) (pattern : Text) : List Text :=
  let (directory, components) := splitPattern pattern
  Text.sorted ((expand tree [directory] components).filter tree.isFile)

end LuaReference.Glob
