import LuaReference.CommandLine.Arguments
import LuaReference.Doc.Export
import LuaReference.Project.Basic

set_option autoImplicit false

/-! # The command line

A command documents a file or a project and shows the documentation or writes it to a file. A
run that fails shows nothing, and leaves all files as they are with one exception: a file that is
to be written is emptied before it turns out that the documentation cannot be spelled.
-/

namespace LuaReference.CommandLine

/-- How a run ends. -/
inductive Exit where
  | success
  | usage (error : UsageError)
  | failure (fault : Fault)
deriving DecidableEq

/-- What a run does. -/
structure Outcome where
  exit : Exit
  shown : Text := []
  log : List Text := []
  /-- The files after the run. -/
  tree : FileTree

/-- How the program is called. -/
def usage : Text :=
  "usage: luadoc [-h] [-p CONFIG] [--indent INDENT] [FILE [OUTPUT] ...]".toList

/-- What is shown on a request for help. -/
def help : Text :=
  usage ++ "

Parse LuaDoc-annotated Lua sources and emit JSON documentation.

positional arguments:
  FILE [OUTPUT]         Lua file to parse (single-file mode), then an optional
                        output path. In project mode only the optional output
                        path.

options:
  -h, --help            show this help message and exit
  -p CONFIG, --project CONFIG
                        Project mode: JSON config mapping namespaces to files
                        / glob patterns
  --indent INDENT       JSON indentation, 0 for compact output (default: 2)

project config format:
  \x7b
    \"namespace1\": [\"file1.lua\", \"lib/**/*.lua\"],
    \"namespace2\": [\"file3.lua\"]
  \x7d
".toList

/-- What a failed run tells. -/
def failureText (fault : Fault) : Text :=
  "Error generating Lua documentation: ".toList ++ fault.message

/-- A line of the log about the progress of a run. -/
def infoLine (text subject : Text) : Text :=
  "INFO luadoc.cli: ".toList ++ text ++ ": ".toList ++ subject

/-- The documentation that a task asks for, and the lines of the log. -/
def Task.perform (tree : FileTree) : Task → List Text × Except Fault Doc
  | .file path => ([], do ProjectReport.parseText defaultNamespace (← tree.readText path))
  | .project path =>
      let report := ProjectReport.ofPath tree path
      (infoLine "Parsing project from config".toList path :: report.notices.map Notice.logLine,
        report.result)

/-- The placeholders for halves of surrogate pairs in the names that a task gives. -/
def Task.row? (tree : FileTree) : Task → Option Placeholders
  | .file _ => none
  | .project path => (tree.readText path).toOption.map Config.row

/-- Hands a text out: shows it, or writes it to the file at a path. A text that holds halves of
surrogate pairs is handed out to nobody, but the file has been opened by then. -/
def deliver (tree : FileTree) (log : List Text) (text : Text) (halves : Option Halves) :
    Option Text → Outcome
  | none =>
      match halves with
      | some halves => { exit := .failure (.halves halves), log, tree }
      | none => { exit := .success, shown := text ++ ['\n'], log, tree }
  | some path =>
      match tree.writeText path (if halves.isSome then [] else text) with
      | .error error => { exit := .failure (.unusable error path), log, tree }
      | .ok written =>
          match halves with
          | some halves => { exit := .failure (.halves halves), log, tree := written }
          | none =>
              { exit := .success
                log := log ++ [infoLine "JSON documentation written to".toList path]
                tree := written }

/-- Runs a command. -/
def Command.run (command : Command) (tree : FileTree) : Outcome :=
  let (log, result) := command.task.perform tree
  match result with
  | .error fault => { exit := .failure fault, log, tree }
  | .ok doc =>
      let halves := (command.task.row? tree).bind fun row => doc.halves? row command.indent
      deliver tree log (doc.export command.indent) halves command.output

/-- Runs the program on arguments. -/
def run (tree : FileTree) (arguments : List Text) : Outcome :=
  match Settings.ofArguments arguments with
  | .error error => { exit := .usage error, tree }
  | .ok settings =>
      if settings.help then { exit := .success, shown := help, tree }
      else match Command.ofSettings settings with
        | .error error => { exit := .usage error, tree }
        | .ok command => command.run tree

/-- All that a run tells besides its documentation: the usage with the error, or the log. -/
def Outcome.told (outcome : Outcome) : Text :=
  match outcome.exit with
  | .usage error => usage ++ "\nluadoc: error: ".toList ++ error.message ++ ['\n']
  | _ => outcome.log.flatMap (· ++ ['\n'])

end LuaReference.CommandLine
