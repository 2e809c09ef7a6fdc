import LuaReference.CommandLine.Basic

set_option autoImplicit false

/-! # The program

The command line works on a file tree. Here the part of the files on disk that a command
concerns is read into such a tree: what stands on the way to a path, and the names below the
directory of a pattern. What the command wrote in the tree is then written to disk.
-/

namespace LuaReference.Disk

/-- The path of a place. -/
def pathOf (place : Place) : String := String.ofList ('/' :: Text.join ['/'] place)

/-- The places that a path leads past, from a starting place. -/
def placesOn (start : Place) : List Text → List Place
  | [] => []
  | component :: rest =>
      let place :=
        if component = [] || component = ['.'] then start
        else if component = ['.', '.'] then start.dropLast
        else start ++ [component]
      place :: placesOn place rest

/-- The tree with what stands at a place on disk. -/
def readPlace (tree : FileTree) (place : Place) : IO FileTree := do
  let file := (← IO.currentDir) / pathOf place
  match ← file.metadata.toBaseIO with
  | .error _ => return tree
  | .ok data =>
      match data.type with
      | .dir => return tree.put place .directory
      | .file => return tree.put place (.file (← IO.FS.readBinFile file).toList)
      | _ => return tree

/-- The tree with all that stands on the way to a path. -/
def readWay (tree : FileTree) (path : Text) : IO FileTree := do
  if path.contains '\x00' then return tree
  let places := placesOn (tree.start path) (Text.splitAtEach '/' path)
  (places.filter (!·.isEmpty)).foldlM readPlace tree

/-- The tree with all names below a place, `depth` directories down at most. Files have no
content yet, unless they were read before. Links to directories are not followed. -/
def readNames (tree : FileTree) (place : Place) : Nat → IO FileTree
  | 0 => return tree
  | depth + 1 => do
      let directory := (← IO.currentDir) / pathOf place
      match ← directory.readDir.toBaseIO with
      | .error _ => return tree
      | .ok found =>
          found.foldlM
            (fun tree entry => do
              let next := place ++ [entry.fileName.toList]
              let known := (tree.find? next).isSome
              match ← entry.path.metadata.toBaseIO, ← entry.path.symlinkMetadata.toBaseIO with
              | .ok data, .ok own =>
                  match data.type, own.type with
                  | .dir, .dir => readNames (tree.put next .directory) next depth
                  | .dir, _ => return tree.put next .directory
                  | .file, _ => return if known then tree else tree.put next (.file [])
                  | _, _ => return tree
              | _, _ => return tree)
            tree

/-- No path leads further down. -/
def depthLimit : Nat := 2048

/-- The tree with what an entry of a configuration resolves to. -/
def readEntry (directory : Text) (tree : FileTree) (entry : Text) : IO FileTree := do
  match Resolution.root? directory entry with
  | none => readWay tree (Path.join directory entry)
  | some root =>
      let tree ← readWay tree root
      match tree.locate root with
      | .error _ => return tree
      | .ok place =>
          let tree ← readNames tree place depthLimit
          (Resolution.ofEntry tree directory entry).files.foldlM readWay tree

/-- The tree with all that a command reads. -/
def readCommand (tree : FileTree) (command : CommandLine.Command) : IO FileTree := do
  let tree ← readWay tree (command.output.getD [])
  match command.task with
  | .file path => readWay tree path
  | .project path =>
      let tree ← readWay tree path
      match Config.load tree path with
      | .error _ => return tree
      | .ok config =>
          (config.flatMap Prod.snd).foldlM (readEntry (Config.directory tree path)) tree

/-- The tree that arguments concern. -/
def read (arguments : List Text) : IO FileTree := do
  let working := (← IO.currentDir).toString.toList
  let place := (Text.splitAtEach '/' working).filter (!·.isEmpty)
  let empty : FileTree := { working := place }
  let tree ← readWay empty working
  match CommandLine.Settings.ofArguments arguments >>= CommandLine.Command.ofSettings with
  | .error _ => return tree
  | .ok command => readCommand tree command

/-- Writes the files that differ from those of another tree. -/
def writeChanges (before after : FileTree) : IO Unit := do
  for (place, node) in after.nodes do
    match node with
    | .directory => pure ()
    | .file bytes =>
        if before.find? place ≠ some (.file bytes) then
          IO.FS.writeBinFile (pathOf place) ⟨bytes.toArray⟩

/-- Runs the command line on the files on disk. -/
def run (arguments : List Text) : IO UInt32 := do
  let tree ← read arguments
  let outcome := CommandLine.run tree arguments
  writeChanges tree outcome.tree
  (← IO.getStdout).putStr (String.ofList outcome.shown)
  (← IO.getStderr).putStr (String.ofList outcome.told)
  match outcome.exit with
  | .success => return 0
  | .usage _ => return 2
  | .failure fault =>
      IO.eprintln (String.ofList (CommandLine.failureText fault))
      return 1

end LuaReference.Disk

/-- The program. -/
def main (arguments : List String) : IO UInt32 :=
  LuaReference.Disk.run (arguments.map String.toList)
