import LuaReference.Text.Basic

set_option autoImplicit false

/-! # Paths as text

A path is a text whose components are separated by slashes; one that begins with a slash is
absolute. The functions here look at the text alone and not at any files.
-/

namespace LuaReference.Path

/-- Whether a path is absolute. -/
def isAbsolute (path : Text) : Bool := path.head? = some '/'

/-- A path inside of a directory; an absolute one stands for itself. -/
def join (directory path : Text) : Text :=
  if isAbsolute path || directory.isEmpty then path
  else if directory.getLast? = some '/' then directory ++ path
  else directory ++ '/' :: path

/-- The path without the slashes it ends in. -/
def dropTrailingSlashes (path : Text) : Text := (path.reverse.dropWhile (· = '/')).reverse

/-- The path of a directory as it is written in front of its entries: without the slashes at
its end, unless it has nothing else. -/
def asDirectory (path : Text) : Text :=
  match dropTrailingSlashes path with
  | [] => path
  | kept => kept

/-- The directory part of a path. -/
def parent (path : Text) : Text := asDirectory (path.reverse.dropWhile (· ≠ '/')).reverse

/-- The components of an absolute path that are left when empty ones and single dots are taken
out and each double dot takes the component in front of it along. -/
def normalComponents (components : List Text) : List Text :=
  components.foldl
    (fun kept component =>
      if component = [] || component = ['.'] then kept
      else if component = ['.', '.'] then kept.dropLast
      else kept ++ [component])
    []

/-- The slashes a normal absolute path begins with: exactly two are kept as they are. -/
def rootSlashes : Text → Text
  | '/' :: '/' :: '/' :: _ => ['/']
  | '/' :: '/' :: _ => ['/', '/']
  | _ => ['/']

/-- The normal form of an absolute path. -/
def normalize (path : Text) : Text :=
  rootSlashes path ++ Text.join ['/'] (normalComponents (Text.splitAtEach '/' path))

end LuaReference.Path
