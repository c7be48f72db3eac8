/-
NativeTypes.CommandLine.Options — the commands and what they take.

    dbgcodegen [-v] generate  INPUT... [--writer NAME] [-o DIR] [-j N] ...
    dbgcodegen [-v] resolve   INPUT...
    dbgcodegen [-v] writers

Both commands that read types take the same input options: a configuration,
snapshots, images of executables, modules, roots, and the form in which
diagnostics are shown. Two dashes leave a switch without a value; for those
that can be given several times this is a place without a value in the list.
-/
import NativeTypes.CommandLine.Arguments
import NativeTypes.Config
import NativeTypes.Decimal.Read

namespace NativeTypes.CommandLine

/-- The form in which diagnostics are shown. -/
inductive Format
  /-- Lines, and their number at the end. -/
  | summary
  /-- Lines alone. -/
  | gcc
  /-- JSON objects. -/
  | json
  deriving DecidableEq, Repr

/-- The form that a word stands for. -/
def Format.ofWord? (w : String) : Option Format :=
  [("summary", summary), ("gcc", gcc), ("json", json)].lookup w

/-- What a command is asked to do. -/
structure Options where
  config : Option String := none
  snapshots : List (Option String) := []
  /-- Executables, each with the module it is the image of. -/
  images : List (Option String) := []
  modules : List (Option String) := []
  roots : List (Option String) := []
  format : Format := .summary
  /-- Settings that replace those of the configuration. -/
  settings : Config.Overrides := {}
  /-- The writer is left without a value. -/
  lacksWriter : Bool := false
  /-- The output directory is left without a value. -/
  lacksTarget : Bool := false
  /-- The number of jobs is left without a value. -/
  lacksJobs : Bool := false

/-- The commands. -/
inductive Command
  | generate
  | resolve
  | writers
  deriving DecidableEq, Repr

/-- The command with a name. -/
def Command.ofName? (name : String) : Option Command :=
  [("generate", generate), ("resolve", resolve), ("writers", writers)].lookup name

/-- The switch that shows the help. -/
def helpSwitch {α : Type} : Switch α := ⟨["-h", "--help"], .page .help⟩

/-- A switch that takes any text. -/
def textSwitch {α : Type} (names : List String) (change : Option String → α → α) : Switch α :=
  ⟨names, .take fun value settings => some (change value settings)⟩

/-- The switches in front of the command; the settings count how much is to be told. -/
def globalSwitches : List (Switch Nat) :=
  [helpSwitch, ⟨["--version"], .page .version⟩, ⟨["-v", "--verbose"], .set (· + 1)⟩]

/-- The switches that say what is read and how diagnostics are shown. -/
def inputSwitches : List (Switch Options) :=
  [helpSwitch,
   textSwitch ["--config"] fun v o => { o with config := v },
   textSwitch ["--snapshot"] fun v o => { o with snapshots := o.snapshots ++ [v] },
   textSwitch ["--elf"] fun v o => { o with images := o.images ++ [v] },
   textSwitch ["--module"] fun v o => { o with modules := o.modules ++ [v] },
   textSwitch ["--root"] fun v o => { o with roots := o.roots ++ [v] },
   ⟨["--format"], .take fun v o =>
     (v.elim (some .gcc) Format.ofWord?).map fun format => { o with format }⟩]

/-- The switches that say what is written. -/
def outputSwitches : List (Switch Options) :=
  [textSwitch ["--writer"] fun v o =>
     { o with settings.writer := v, lacksWriter := v.isNone },
   textSwitch ["-o", "--output-dir"] fun v o =>
     { o with settings.outputDir := v, lacksTarget := v.isNone },
   textSwitch ["--runtime-module"] fun v o =>
     { o with settings.runtimeModule := some (v.getD "") },
   ⟨["--no-truncate-namespace"], .set fun o => { o with settings.truncateNamespace := some false }⟩,
   ⟨["-j", "--jobs"], .take fun
     | none, o => some { o with lacksJobs := true }
     | some v, o => (Decimal.readInt? v.toList).map fun n =>
       { o with settings.maxWorkers := some n, lacksJobs := false }⟩]

/-- The switches of a command. -/
def Command.switches : Command → List (Switch Options)
  | generate => inputSwitches ++ outputSwitches
  | resolve => inputSwitches
  | writers => [helpSwitch]

/-- What the arguments ask for. -/
structure Invocation where
  /-- How often it was asked to tell more. -/
  verbosity : Nat := 0
  /-- The command with its options; none was given otherwise. -/
  command : Option (Command × Options) := none

/-- Refuses arguments that nothing takes. -/
def refuseExtra (extra : List String) : Except Halt Unit :=
  if extra.isEmpty then .ok () else .error (.misuse (.unrecognized extra))

/-- What arguments ask for. -/
def Invocation.read (arguments : List String) : Except Halt Invocation := do
  let top ← readArguments globalSwitches true 0 arguments
  match top.command with
  | [] =>
    refuseExtra top.extra
    return { verbosity := top.settings }
  | name :: rest =>
    match Command.ofName? name with
    | none => throw (.misuse (.unknownCommand name))
    | some command =>
      let given ← readArguments command.switches false {} rest
      refuseExtra (top.extra ++ given.extra)
      return { verbosity := top.settings, command := some (command, given.settings) }

end NativeTypes.CommandLine
