import LuaReference.CommandLine.Basic
import LuaReference.Proofs.Doc.Halves
import LuaReference.Proofs.Files.Writing

set_option autoImplicit false

/-! # All or nothing

A run of the program either hands the documentation out whole, in one place, or does nothing
(`run_allOrNothing`): it shows the text of the documentation, or writes it to one file, or fails,
shows nothing and leaves all files as they are. It fails only if something stands in the way: no
command is given, the task has no documentation, or the file cannot be written.

One failure leaves a mark. A project may have a name that holds half of a surrogate pair, and then
its documentation cannot be spelled. A file that it was to be written to is left empty
(`run_halvedProject`).
-/

namespace LuaReference.CommandLine

/-! ## Switches for help -/

/-- Whether an argument is a switch for help. -/
def Argument.IsHelp (argument : Argument) : Prop :=
  ∃ short attached, argument = .named .help short attached

/-- Whether there is a switch for help among arguments. -/
def HasHelp (arguments : List Text) : Prop :=
  ∃ read, Argument.classifyAll arguments = .ok read ∧ ∃ argument ∈ read, argument.IsHelp

namespace Settings

theorem help_addGroup (settings : Settings) (group : List Argument) :
    (settings.addGroup group).help = settings.help := by
  rw [addGroup]
  split <;> rfl

theorem help_setValue {settings next : Settings} {switch : Switch} {value : Text}
    (hs : switch ≠ .help) (h : settings.setValue switch value = .ok next) :
    next.help = settings.help := by
  cases switch with
  | help => exact absurd rfl hs
  | project => exact Except.ok.inj h ▸ rfl
  | indent =>
      rw [setValue] at h
      split at h
      · exact Except.ok.inj h ▸ rfl
      · split at h
        · cases h
        · exact Except.ok.inj h ▸ rfl

/-- A group of operands is closed in front of a switch, if there is one. -/
theorem help_closeGroup (skip : Bool) (settings : Settings) (group : List Argument) :
    (if skip then settings else settings.addGroup group).help = settings.help := by
  cases skip with
  | false => exact help_addGroup settings group
  | true => rfl

/-- Only a switch for help asks for help. -/
theorem help_read {settings result : Settings} {group arguments : List Argument}
    (h : settings.read group arguments = .ok result)
    (hnone : ∀ argument ∈ arguments, ¬ argument.IsHelp) : result.help = settings.help := by
  fun_induction Settings.read settings group arguments generalizing result with
  | case1 settings group =>
      obtain rfl := Except.ok.inj h
      exact help_closeGroup _ settings group
  | case2 settings group argument rest hoperand ih =>
      exact ih h fun argument hmem => hnone argument (List.mem_cons_of_mem _ hmem)
  | case3 settings group rest next short => exact absurd ⟨short, none, rfl⟩ (hnone _ (by simp))
  | case4 settings group rest next short value =>
      exact absurd ⟨short, some value, rfl⟩ (hnone _ (by simp))
  | case6 settings group rest next switch short value hswitch =>
      rename_i ih
      obtain ⟨changed, hset, h⟩ := bind_eq_ok h
      rw [ih changed h fun argument hmem => hnone argument (List.mem_cons_of_mem _ hmem),
        help_setValue hswitch hset, help_closeGroup]
  | case7 settings group next switch short hswitch value rest =>
      -- the value stands in the next argument
      rename_i ih
      obtain ⟨changed, hset, h⟩ := bind_eq_ok h
      rw [ih changed h fun argument hmem =>
          hnone argument (List.mem_cons_of_mem _ (List.mem_cons_of_mem _ hmem)),
        help_setValue hswitch hset, help_closeGroup]
  | case9 settings group rest next argument =>
      rename_i ih
      rw [ih h fun argument hmem => hnone argument (List.mem_cons_of_mem _ hmem)]
      exact help_closeGroup _ settings group
  | case5 | case8 => cases h

theorem help_ofArguments {arguments : List Text} {settings : Settings}
    (h : ofArguments arguments = .ok settings) (hnone : ¬ HasHelp arguments) :
    settings.help = false := by
  obtain ⟨read, hread, h⟩ := bind_eq_ok h
  obtain ⟨result, hresult, h⟩ := bind_eq_ok h
  have hhelp : result.help = false :=
    help_read hresult fun argument hmem his => hnone ⟨read, hread, argument, hmem, his⟩
  split at h
  · exact Except.ok.inj h ▸ hhelp
  · cases h

end Settings

/-! ## What a run is to hand out -/

/-- The documentation that a task asks for: that of the text of a file, or that of a project. -/
inductive Documents (tree : FileTree) : Task → Doc → Prop
  | file {path text : Text} {doc : Doc} (read : tree.readText path = .ok text)
      (parsed : parse text defaultNamespace = .ok doc) : Documents tree (.file path) doc
  | project {path : Text} {doc : Doc}
      (resolved : (ProjectReport.ofPath tree path).result = .ok doc) :
      Documents tree (.project path) doc

theorem perform_eq_ok_iff {tree : FileTree} {task : Task} {doc : Doc} :
    (task.perform tree).2 = .ok doc ↔ Documents tree task doc := by
  constructor
  · intro h
    cases task with
    | project path => exact .project h
    | file path =>
        obtain ⟨text, hread, h⟩ := bind_eq_ok h
        refine .file hread ?_
        rw [ProjectReport.parseText] at h
        cases hparse : parse text defaultNamespace with
        | ok found => rw [hparse] at h; exact congrArg _ (Except.ok.inj h)
        | error error => rw [hparse] at h; cases h
  · intro h
    cases h with
    | project resolved => exact resolved
    | file read parsed =>
        rw [Task.perform, read, ok_bind, ProjectReport.parseText, parsed]
        rfl

/-- Whether the documentation of a task can be spelled: no name that the task gives to a namespace
holds half of a surrogate pair. -/
def Spelled (tree : FileTree) (task : Task) (doc : Doc) : Prop :=
  ∀ row ∈ task.row? tree, doc.holdsHalf row = false

/-- Whether nothing stands in the way of a command: its task has documentation that can be spelled,
and the file it is to be written to can be. -/
structure Deliverable (tree : FileTree) (command : Command) : Prop where
  documents : ∃ doc, Documents tree command.task doc ∧ Spelled tree command.task doc
  writable : ∀ path ∈ command.output, ∃ place, tree.writablePlace path = .ok place

/-- What has been done with a text that is handed out: it was shown, or written to the file at a
path and nowhere else. -/
inductive HandedOut (tree : FileTree) (text : Text) : Option Text → Outcome → Prop
  | shown {outcome : Outcome} (shown : outcome.shown = text ++ ['\n'])
      (kept : outcome.tree = tree) : HandedOut tree text none outcome
  | written {path : Text} {outcome : Outcome} (shown : outcome.shown = [])
      (written : tree.Writes path (Text.toUtf8 text) outcome.tree) :
      HandedOut tree text (some path) outcome

/-- A run that completes a command: it hands out the documentation, which can be spelled. -/
structure Completed (tree : FileTree) (command : Command) (outcome : Outcome) : Prop where
  exit : outcome.exit = .success
  handedOut : ∃ doc, Documents tree command.task doc ∧ Spelled tree command.task doc ∧
    HandedOut tree (doc.export command.indent) command.output outcome

/-- A run that fails and leaves everything as it was. -/
structure Refused (tree : FileTree) (outcome : Outcome) : Prop where
  exit : outcome.exit ≠ .success
  shown : outcome.shown = []
  kept : outcome.tree = tree

/-- A run that fails because the documentation cannot be spelled, and leaves the file that it was to
be written to empty. -/
structure Emptied (tree : FileTree) (command : Command) (outcome : Outcome) : Prop where
  unspelled : ∃ doc, Documents tree command.task doc ∧ ¬ Spelled tree command.task doc
  exit : ∃ halves, outcome.exit = .failure (.halves halves)
  shown : outcome.shown = []
  written : ∃ path, command.output = some path ∧ tree.Writes path [] outcome.tree

/-! ## Runs -/

section Deliver

variable (tree : FileTree) (log : List Text) (text : Text) (output : Option Text)

theorem deliver_none :
    ((deliver tree log text none output).exit = .success ∧
        HandedOut tree text output (deliver tree log text none output)) ∨
      Refused tree (deliver tree log text none output) := by
  cases output with
  | none => exact .inl ⟨rfl, .shown rfl rfl⟩
  | some path =>
      rw [deliver]
      split
      · exact .inr ⟨by simp, rfl, rfl⟩
      · rename_i written hwritten
        exact .inl ⟨rfl, .written rfl (FileTree.writes_of_writeText hwritten)⟩

theorem toUtf8_nil : Text.toUtf8 [] = [] := by decide +kernel

/-- The file is opened before the text is spelled. -/
theorem deliver_some (halves : Halves) :
    Refused tree (deliver tree log text (some halves) output) ∨
      ((deliver tree log text (some halves) output).exit = .failure (.halves halves) ∧
        (deliver tree log text (some halves) output).shown = [] ∧
          ∃ path, output = some path ∧
            tree.Writes path [] (deliver tree log text (some halves) output).tree) := by
  cases output with
  | none => exact .inl ⟨by simp [deliver], rfl, rfl⟩
  | some path =>
      rw [deliver]
      split
      · exact .inl ⟨by simp, rfl, rfl⟩
      · rename_i written hwritten
        have hwrites : tree.Writes path (Text.toUtf8 []) written :=
          FileTree.writes_of_writeText hwritten
        rw [toUtf8_nil] at hwrites
        exact .inr ⟨rfl, rfl, path, rfl, hwrites⟩

end Deliver

section Command

variable (command : Command) (tree : FileTree)

/-- No halves are found in the text of documentation that can be spelled, and in no other. -/
theorem Spelled.iff_halves (doc : Doc) :
    ((command.task.row? tree).bind fun row => doc.halves? row command.indent) = none ↔
      Spelled tree command.task doc := by
  simp only [Option.bind_eq_none_iff, Doc.halves?_eq_none_iff, Spelled, Option.mem_def]

theorem Command.run_eq {doc : Doc} (h : Documents tree command.task doc) :
    command.run tree =
      deliver tree (command.task.perform tree).1 (doc.export command.indent)
        ((command.task.row? tree).bind fun row => doc.halves? row command.indent)
        command.output := by
  rw [Command.run]
  simp only [perform_eq_ok_iff.mpr h]

theorem Command.run_cases :
    Completed tree command (command.run tree) ∨ Refused tree (command.run tree) ∨
      Emptied tree command (command.run tree) := by
  cases hresult : (command.task.perform tree).2 with
  | error fault =>
      rw [Command.run]
      simp only [hresult]
      exact .inr (.inl ⟨by simp, rfl, rfl⟩)
  | ok doc =>
      have hdoc : Documents tree command.task doc := perform_eq_ok_iff.mp hresult
      have hspelled := Spelled.iff_halves command tree doc
      rw [Command.run_eq command tree hdoc]
      cases hhalves : (command.task.row? tree).bind fun row => doc.halves? row command.indent with
      | none =>
          rcases deliver_none tree (command.task.perform tree).1 (doc.export command.indent)
            command.output with ⟨hexit, hout⟩ | hrefused
          · exact .inl ⟨hexit, doc, hdoc, hspelled.mp hhalves, hout⟩
          · exact .inr (.inl hrefused)
      | some halves =>
          have hunspelled : ¬ Spelled tree command.task doc := fun h => by
            rw [hspelled.mpr h] at hhalves
            cases hhalves
          rcases deliver_some tree (command.task.perform tree).1 (doc.export command.indent)
            command.output halves with hrefused | ⟨hexit, hshown, hwritten⟩
          · exact .inr (.inl hrefused)
          · exact .inr (.inr ⟨⟨doc, hdoc, hunspelled⟩, ⟨halves, hexit⟩, hshown, hwritten⟩)

/-- A command that nothing stands in the way of succeeds. -/
theorem Deliverable.exit_run {command : Command} {tree : FileTree}
    (h : Deliverable tree command) : (command.run tree).exit = .success := by
  obtain ⟨doc, hdoc, hspelled⟩ := h.documents
  rw [Command.run_eq command tree hdoc, (Spelled.iff_halves command tree doc).mpr hspelled]
  cases houtput : command.output with
  | none => rfl
  | some path =>
      obtain ⟨place, hplace⟩ := h.writable path houtput
      have hwrite : tree.writeText path (doc.export command.indent) =
          .ok (tree.put place (.file (Text.toUtf8 (doc.export command.indent)))) := by
        rw [FileTree.writeText, hplace]
        rfl
      rw [deliver]
      simp only [Option.isSome_none, Bool.false_eq_true, if_false, hwrite]

end Command

/-- The command that arguments give. -/
def Gives (arguments : List Text) (command : Command) : Prop :=
  (Settings.ofArguments arguments >>= Command.ofSettings) = .ok command

/-- Without a switch for help, the program runs the command that its arguments give, or fails and
leaves everything as it was. -/
theorem run_eq_or_refused {arguments : List Text} (hhelp : ¬ HasHelp arguments) (tree : FileTree) :
    (∃ command, Gives arguments command ∧ run tree arguments = command.run tree) ∨
      (∀ command, ¬ Gives arguments command) ∧ Refused tree (run tree arguments) := by
  cases hsettings : Settings.ofArguments arguments with
  | error error =>
      refine .inr ⟨fun command hgives => ?_, ?_⟩
      · rw [Gives, hsettings] at hgives
        cases hgives
      · rw [run, hsettings]
        exact ⟨by simp, rfl, rfl⟩
  | ok settings =>
      have hsilent := Settings.help_ofArguments hsettings hhelp
      cases hcommand : Command.ofSettings settings with
      | error error =>
          refine .inr ⟨fun command hgives => ?_, ?_⟩
          · rw [Gives, hsettings, ok_bind, hcommand] at hgives
            cases hgives
          · simp only [run, hsettings, hsilent, hcommand]
            exact ⟨by simp, rfl, rfl⟩
      | ok command =>
          refine .inl ⟨command, by rw [Gives, hsettings, ok_bind, hcommand], ?_⟩
          simp only [run, hsettings, hsilent, hcommand]
          rfl

/-- **All or nothing.** Without a switch for help, a run completes the command that its arguments
give, or fails and leaves everything as it was; and it completes a command that nothing stands in
the way of. The one exception is documentation that cannot be spelled, for which a file may be
emptied. -/
theorem run_allOrNothing {arguments : List Text} (hhelp : ¬ HasHelp arguments) (tree : FileTree) :
    ((∃ command, Gives arguments command ∧ Completed tree command (run tree arguments)) ∨
      Refused tree (run tree arguments) ∨
        ∃ command, Gives arguments command ∧ Emptied tree command (run tree arguments)) ∧
      ∀ command, Gives arguments command → Deliverable tree command →
        (run tree arguments).exit = .success := by
  rcases run_eq_or_refused hhelp tree with ⟨command, hgives, hrun⟩ | ⟨hnone, hrefused⟩
  · rw [hrun]
    constructor
    · rcases command.run_cases tree with hdone | hrefused | hemptied
      · exact .inl ⟨command, hgives, hdone⟩
      · exact .inr (.inl hrefused)
      · exact .inr (.inr ⟨command, hgives, hemptied⟩)
    · intro other hother hdeliverable
      obtain rfl : command = other := Except.ok.inj (hgives.symm.trans hother)
      exact hdeliverable.exit_run
  · exact ⟨.inr (.inl hrefused), fun command hgives => absurd hgives (hnone command)⟩

/-- A project with one file, which describes a class. -/
def swordTree : FileTree where
  nodes := [(["p.json".toList], .file (Text.toUtf8 "\x7b\"game\": [\"sword.lua\"]\x7d".toList)),
    (["sword.lua".toList], .file (Text.toUtf8 "---@class Sword Cuts.\n\n".toList)),
    (["out.json".toList], .file (Text.toUtf8 "old".toList))]
  distinct := by decide

/-- The arguments that ask for the documentation of a project in a file. -/
def writeProject : List Text := ["-p".toList, "p.json".toList, "out.json".toList]

theorem not_hasHelp_writeProject : ¬ HasHelp writeProject := by
  have hread : Argument.classifyAll writeProject =
      .ok [.named .project true none, .operand "p.json".toList, .operand "out.json".toList] := by
    decide +kernel
  rintro ⟨read, hread', argument, hmem, short, attached, rfl⟩
  obtain rfl := Except.ok.inj (hread.symm.trans hread')
  simp at hmem

/-- The project is documented in the file, since the run succeeds. -/
theorem run_swordProject :
    ¬ HasHelp writeProject ∧ (run swordTree writeProject).exit = .success ∧
      ∃ command, Gives writeProject command ∧
        Completed swordTree command (run swordTree writeProject) := by
  have hexit : (run swordTree writeProject).exit = .success := by decide +kernel
  refine ⟨not_hasHelp_writeProject, hexit, ?_⟩
  rcases (run_allOrNothing not_hasHelp_writeProject swordTree).1 with
    hdone | hrefused | ⟨command, -, hemptied⟩
  · exact hdone
  · exact absurd hexit hrefused.exit
  · obtain ⟨halves, hfailed⟩ := hemptied.exit
    rw [hexit] at hfailed
    cases hfailed

/-- A project with one namespace, whose name is half of a surrogate pair. -/
def halvedTree : FileTree where
  nodes := [(["p.json".toList], .file (Text.toUtf8 "\x7b\"\\ud800\": []\x7d".toList)),
    (["out.json".toList], .file (Text.toUtf8 "old".toList))]
  distinct := by decide

/-- The run fails, and the file it was to write is not what it was. -/
theorem run_halvedProject :
    (run halvedTree writeProject).exit = .failure (.halves ⟨0xD800, 41, 41⟩) ∧
      halvedTree.find? ["out.json".toList] = some (.file (Text.toUtf8 "old".toList)) ∧
      (run halvedTree writeProject).tree.find? ["out.json".toList] = some (.file []) := by
  decide +kernel

end LuaReference.CommandLine
