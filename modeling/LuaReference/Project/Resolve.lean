import LuaReference.Files.Glob

set_option autoImplicit false

/-! # Resolving the entries of a namespace

An entry of a namespace is a path or a path pattern, relative to the directory of the project.
It resolves to existing files. What leads to no file is noted and skipped.
-/

namespace LuaReference

/-- What is noted about an entry. -/
inductive Notice where
  | fileNotFound (path : Text)
  | notAFile (path : Text)
  | directoryNotFound (path : Text)
  /-- A pattern that matches no file, which is no error. -/
  | noMatch (pattern : Text)
deriving DecidableEq

namespace Notice

/-- What is noted. -/
def text : Notice → Text
  | .fileNotFound _ => "File not found".toList
  | .notAFile _ => "Not a regular file".toList
  | .directoryNotFound _ => "Directory not found".toList
  | .noMatch _ => "No files match pattern".toList

/-- The path or pattern that it is noted about. -/
def subject : Notice → Text
  | .fileNotFound path | .notAFile path | .directoryNotFound path | .noMatch path => path

/-- Whether it is reported as an error. -/
def isError : Notice → Bool
  | .noMatch _ => false
  | _ => true

/-- The line of the log. -/
def logLine (notice : Notice) : Text :=
  "WARNING luadoc.project: ".toList ++ notice.text ++ ": ".toList ++ notice.subject

end Notice

/-- The files that entries resolve to and what is noted about the entries, both in order. -/
structure Resolution where
  files : List Text := []
  notices : List Notice := []
deriving DecidableEq

namespace Resolution

/-- Whether a character makes an entry a pattern. -/
def isPatternChar (c : Char) : Bool := c = '*' || c = '?'

/-- Whether an entry is a pattern. -/
def isPattern (entry : Text) : Bool := entry.any isPatternChar

/-- Whether a character ends the directory part of a pattern. -/
def isSlash (c : Char) : Bool := c = '/' || c = '\\'

/-- The directory in front of the first wildcard of a pattern, or `none` for an entry that is
no pattern. -/
def root? (directory entry : Text) : Option Text :=
  if isPattern entry then
    let front := entry.takeWhile (!isPatternChar ·)
    match (front.reverse.dropWhile (!isSlash ·)).reverse with
    | [] => some directory
    | part => some (Path.join directory part)
  else none

/-- What one entry resolves to. -/
def ofEntry (tree : FileTree) (directory entry : Text) : Resolution :=
  let path := Path.join directory entry
  match root? directory entry with
  | some root =>
      if !tree.isDirectory root then { notices := [.directoryNotFound root] }
      else match Glob.files tree path with
        | [] => { notices := [.noMatch entry] }
        | files => { files }
  | none =>
      if !tree.hasPath path then { notices := [.fileNotFound path] }
      else if !tree.isFile path then { notices := [.notAFile path] }
      else { files := [path] }

/-- What the entries of a namespace resolve to. -/
def ofEntries (tree : FileTree) (directory : Text) (entries : List Text) : Resolution where
  files := entries.flatMap fun entry => (ofEntry tree directory entry).files
  notices := entries.flatMap fun entry => (ofEntry tree directory entry).notices

end Resolution

end LuaReference
