import LuaReference.Text.Integer
import LuaReference.Text.Quoted

set_option autoImplicit false

/-! # Arguments of the command line

An argument is a switch or an operand. A switch is written out, shortened to a beginning that
fits no other switch, or written with its value attached, behind an equals sign or, with a
single hyphen, without one. Two hyphens end the switches. All operands stand in one group: what
stands behind a further switch is not recognised.
-/

namespace LuaReference.CommandLine

/-- The switches. -/
inductive Switch where
  | help
  | project
  | indent
deriving DecidableEq

/-- The spellings of the switches. -/
def spellings : List (Text × Switch) :=
  [("-h".toList, .help), ("--help".toList, .help), ("-p".toList, .project),
    ("--project".toList, .project), ("--indent".toList, .indent)]

/-- The name of a switch in messages. -/
def Switch.title : Switch → Text
  | .help => "-h/--help".toList
  | .project => "-p/--project".toList
  | .indent => "--indent".toList

/-- Why a command line is refused. -/
inductive UsageError where
  | ambiguous (argument : Text) (candidates : List Text)
  | expectedValue (switch : Switch)
  | ignoredValue (switch : Switch) (value : Text)
  | invalidInteger (value : Text)
  | unrecognized (arguments : List Text)
  | severalOutputs
  | noFile
  | severalFiles
deriving DecidableEq

namespace UsageError

/-- The error as a message. -/
def message : UsageError → Text
  | .ambiguous argument candidates =>
      "ambiguous option: ".toList ++ argument ++ " could match ".toList ++
        Text.join ", ".toList candidates
  | .expectedValue switch =>
      "argument ".toList ++ switch.title ++ ": expected one argument".toList
  | .ignoredValue switch value =>
      "argument ".toList ++ switch.title ++ ": ignored explicit argument ".toList ++
        Text.quoted value
  | .invalidInteger value =>
      "argument ".toList ++ Switch.indent.title ++ ": invalid int value: ".toList ++
        Text.quoted value
  | .unrecognized arguments =>
      "unrecognized arguments: ".toList ++ Text.join [' '] arguments
  | .severalOutputs => "project mode takes at most one OUTPUT path".toList
  | .noFile => "a Lua FILE is required (or --project CONFIG)".toList
  | .severalFiles => "expected FILE [OUTPUT]".toList

end UsageError

/-! ## Kinds of arguments -/

/-- What an argument is. -/
inductive Argument where
  | operand (text : Text)
  /-- The two hyphens behind which all arguments are operands. -/
  | endOfSwitches
  /-- A switch; `short` tells whether it is written with a single hyphen. -/
  | named (switch : Switch) (short : Bool) (attached : Option Text)
  | unknown (text : Text)
deriving DecidableEq

namespace Argument

/-- The argument as it was written, if it is no known switch. -/
def text : Argument → Text
  | .operand text | .unknown text => text
  | .endOfSwitches => "--".toList
  | .named .. => []

/-- Whether the argument belongs to a group of operands. -/
def isOperand : Argument → Bool
  | .operand _ | .endOfSwitches => true
  | _ => false

/-- The text of a numeral without its sign, if the argument is a negative one; a line feed at
its end does not count. -/
def isNegativeNumber : Text → Bool
  | '-' :: text =>
      let figures := if text.getLast? = some '\n' then text.dropLast else text
      let isDigit (c : Char) : Bool := (digitValue? c).isSome
      match figures.dropWhile isDigit with
      | [] => !figures.isEmpty
      | '.' :: places => !places.isEmpty && places.all isDigit
      | _ => false
  | _ => false

/-- Splits an argument at its first equals sign. -/
def splitValue (argument : Text) : Text × Option Text :=
  (argument.takeWhile (· ≠ '='), Text.after? '=' argument)

/-- The readings of an argument as a shortened switch or as one with its value attached. -/
def readings (argument : Text) : List (Text × Argument) :=
  match argument with
  | '-' :: '-' :: _ =>
      let (beginning, value) := splitValue argument
      (spellings.filter fun (spelling, _) => beginning.isPrefixOf spelling).map
        fun (spelling, switch) => (spelling, .named switch false value)
  | '-' :: letter :: value =>
      (spellings.filter fun (spelling, _) => spelling = ['-', letter]).map
        fun (spelling, switch) => (spelling, .named switch true (some value))
  | _ => []

/-- What an argument in front of the two hyphens is. -/
def classify (argument : Text) : Except UsageError Argument :=
  if argument.head? ≠ some '-' || argument.length = 1 then .ok (.operand argument)
  else
    let isShort (spelling : Text) : Bool := spelling.length = 2
    match spellings.lookup argument with
    | some switch => .ok (.named switch (isShort argument) none)
    | none =>
        let (beginning, value) := splitValue argument
        match spellings.lookup beginning, value with
        | some switch, some value => .ok (.named switch (isShort beginning) (some value))
        | _, _ =>
            match readings argument with
            | [(_, reading)] => .ok reading
            | [] =>
                if isNegativeNumber argument || argument.contains ' ' then
                  .ok (.operand argument)
                else .ok (.unknown argument)
            | several => .error (.ambiguous argument (several.map Prod.fst))

/-- What each of the arguments is. -/
def classifyAll : List Text → Except UsageError (List Argument)
  | [] => .ok []
  | argument :: rest =>
      if argument = "--".toList then .ok (.endOfSwitches :: rest.map .operand)
      else do return (← classify argument) :: (← classifyAll rest)

end Argument

/-! ## Values of switches -/

/-- What the arguments ask for. -/
structure Settings where
  help : Bool := false
  project : Option Text := none
  indent : Option Int := some 2
  /-- The operands, once their group has been read. -/
  operands : Option (List Text) := none
  /-- What has not been recognised. -/
  unrecognized : List Text := []
deriving DecidableEq

namespace Settings

/-- The settings with the value of a switch. Two hyphens as an attached value stand for no
value. -/
def setValue (settings : Settings) (switch : Switch) (value : Text) :
    Except UsageError Settings :=
  let absent := value = "--".toList
  match switch with
  | .help => .ok { settings with help := true }
  | .project => .ok { settings with project := if absent then none else some value }
  | .indent =>
      if absent then .ok { settings with indent := none }
      else match Text.integer? value with
        | none => .error (.invalidInteger value)
        | some indent => .ok { settings with indent := some indent }

/-- The settings with a group of operands: the first group holds the operands, less the two
hyphens, and a later one is not recognised. -/
def addGroup (settings : Settings) (group : List Argument) : Settings :=
  match settings.operands with
  | none =>
      { settings with
        operands := some ((group.map Argument.text).erase "--".toList) }
  | some _ =>
      { settings with
        unrecognized := settings.unrecognized ++ group.map Argument.text }

/-- Whether the letters that are attached to the short switch for help may stand there: further
switches of one letter, the last one of which may take a value. -/
def checkLetters (nextIsOperand : Bool) : Text → Except UsageError Unit
  | [] => .ok ()
  | letter :: rest =>
      match spellings.lookup ['-', letter] with
      | none => .error (.ignoredValue .help (letter :: rest))
      | some .help => checkLetters nextIsOperand rest
      | some switch =>
          if rest.isEmpty && !nextIsOperand then .error (.expectedValue switch) else .ok ()

/-- The settings after arguments from the first one on, up to a request for help. `group` holds
the operands read last. -/
def read (settings : Settings) (group : List Argument) : List Argument → Except UsageError Settings
  | [] => .ok (if group.isEmpty && settings.operands.isSome then settings
      else settings.addGroup group)
  | argument :: rest =>
      if argument.isOperand then read settings (group ++ [argument]) rest
      else
        let settings := if group.isEmpty then settings else settings.addGroup group
        match argument with
        | .named .help _ none => .ok { settings with help := true }
        | .named .help short (some value) =>
            if short && !value.isEmpty then do
              let nextIsOperand := match rest with
                | .operand _ :: _ => true
                | _ => false
              checkLetters nextIsOperand value
              return { settings with help := true }
            else .error (.ignoredValue .help value)
        | .named switch _ (some value) => do read (← settings.setValue switch value) [] rest
        | .named switch _ none =>
            match rest with
            | .operand value :: rest => do read (← settings.setValue switch value) [] rest
            | _ => .error (.expectedValue switch)
        | argument =>
            read { settings with unrecognized := settings.unrecognized ++ [argument.text] } [] rest

/-- The settings that arguments ask for. -/
def ofArguments (arguments : List Text) : Except UsageError Settings := do
  let settings ← read {} [] (← Argument.classifyAll arguments)
  if settings.help || settings.unrecognized.isEmpty then return settings
  else throw (.unrecognized settings.unrecognized)

end Settings

/-! ## Commands -/

/-- What is to be documented. -/
inductive Task where
  | file (path : Text)
  | project (path : Text)
deriving DecidableEq

/-- A task, where its documentation goes and how it is laid out. -/
structure Command where
  task : Task
  /-- The path of the file to write; without one the documentation is shown. -/
  output : Option Text
  indent : Option Int
deriving DecidableEq

/-- The command that settings describe. An empty path of a project or an output counts as
absent. -/
def Command.ofSettings (settings : Settings) : Except UsageError Command :=
  let output (path : Option Text) : Option Text := path.filter (!·.isEmpty)
  let operands := settings.operands.getD []
  match output settings.project, operands with
  | some project, [] => .ok ⟨.project project, none, settings.indent⟩
  | some project, [path] => .ok ⟨.project project, output (some path), settings.indent⟩
  | some _, _ => .error .severalOutputs
  | none, [] => .error .noFile
  | none, [file] => .ok ⟨.file file, none, settings.indent⟩
  | none, [file, path] => .ok ⟨.file file, output (some path), settings.indent⟩
  | none, _ => .error .severalFiles

end LuaReference.CommandLine
