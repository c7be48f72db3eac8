/-
NativeTypes.CommandLine.Outcome — what a command leaves behind, and the
words for its failures.

A command ends with an exit code: 0 when all went well, 1 when a diagnostic
is an error, 2 when it could not do its work, 130 when it was stopped.
Every failure becomes one record of the log.
-/
import NativeTypes.CommandLine.Host
import NativeTypes.Config
import NativeTypes.Export.Run
import NativeTypes.Snapshot
import NativeTypes.Source.Router
import NativeTypes.Writer.Declare

namespace NativeTypes.CommandLine

/-- How important a record of the log is. -/
inductive Level
  | debug
  | info
  | warning
  | error
  deriving DecidableEq, Repr

namespace Level

/-- The word for a level. -/
def word : Level → String
  | debug => "DEBUG"
  | info => "INFO"
  | warning => "WARNING"
  | error => "ERROR"

/-- The place in the order of importance. -/
def rank : Level → Nat
  | debug => 0
  | info => 1
  | warning => 2
  | error => 3

/-- The least level that is told; each request to tell more lowers it. -/
def least : Nat → Level
  | 0 => warning
  | 1 => info
  | _ => debug

end Level

/-- What a command leaves behind, apart from files. -/
structure Outcome where
  exit : Nat := 0
  /-- What is printed. -/
  out : String := ""
  /-- What is reported. -/
  err : String := ""
  log : List (Level × String) := []
  deriving DecidableEq, Repr

/-- The outcome without the records that are not to be told. -/
def Outcome.told (o : Outcome) (verbosity : Nat) : Outcome :=
  { o with log := o.log.filter fun r => (Level.least verbosity).rank ≤ r.1.rank }

/-! ## Failures -/

/-- What a value was needed for where a switch was left without one. -/
inductive Lack
  /-- To look something up. -/
  | key
  /-- To open a file. -/
  | path
  /-- To compare it with a number. -/
  | number
  /-- To take it apart. -/
  | text
  deriving DecidableEq, Repr

/-- The words for a value that is missing. -/
def Lack.message : Lack → String
  | key => "unhashable type: 'list'"
  | path => "expected str, bytes or os.PathLike object, not list"
  | number => "'<' not supported between instances of 'list' and 'int'"
  | text => "'list' object has no attribute 'partition'"

/-- Why a command cannot do its work. -/
inductive Failure
  /-- A file of this use cannot be read. -/
  | unreadable (use : String) (fault : FileFault)
  /-- A file is no text. -/
  | notText (fault : Text.Utf8.Fault)
  | configuration (fault : ConfigError)
  | writer (fault : Writer.Unknown)
  | snapshot (fault : SnapshotError)
  /-- An executable is not given as a module and a path. -/
  | imageArgument (argument : String)
  | route (conflict : RouteConflict)
  | noInput
  | exporting (failure : ExportFailure)
  /-- The types of a module cannot be listed. -/
  | listing (fault : SourceFault)
  /-- The resolver stopped in a module. -/
  | stopped (module : String) (stop : Stop)
  /-- The size of a type cannot be written. -/
  | tooManyDigits
  | unwritable (fault : FileFault)
  /-- A switch was left without a value. -/
  | lacking (lack : Lack)

namespace Failure

/-- A documented failure, in its own words. -/
def foreseen (text : String) : Outcome := { exit := 2, log := [(.error, text)] }

/-- A failure that is none of the documented ones. -/
def unforeseen (why : String) : Outcome := foreseen ("Unhandled exception: " ++ why)

/-- A command that was stopped. -/
def interrupted : Outcome := { exit := 130, log := [(.warning, "generation cancelled")] }

/-- The outcome of a fault of a source. -/
def ofSource : SourceFault → Outcome
  | .query fault => foreseen fault.report.text
  | fault => unforeseen fault.text

/-- The outcome of a resolver that stopped. -/
def ofStop (module : String) (stop : Stop) : Outcome :=
  match stop with
  | .query _ | .cancelled _ | .valueCycle _ => foreseen (stop.text module)
  | .registry _ | .noShape | .noKey | .tooManyDigits | .tooDeep =>
    unforeseen (stop.text module)

/-- The outcome of an export that failed. -/
def ofExport : ExportFailure → Outcome
  | .cancelled _ => interrupted
  | .listing module fault =>
    foreseen ("generation failed: " ++ (Export.listingReport module fault).text)
  | .resolving module root last fault =>
    foreseen ("generation failed: " ++ (Export.resolvingReport module root last fault).text)
  | .source fault => ofSource fault
  | .stopped stop => ofStop "" stop
  | .naming (.exhausted name key) =>
    foreseen (Naming.AllocationFault.exhausted name key).report.text
  | .naming fault => unforeseen fault.report.text

/-- The outcome of a failure. -/
def outcome : Failure → Outcome
  | unreadable use fault =>
    if fault.kind = .nullByte then unforeseen fault.message
    else foreseen ("cannot read " ++ use ++ " " ++ fault.path.text ++ ": " ++ fault.message)
  | notText fault => unforeseen fault.message
  | configuration fault => foreseen fault.report.text
  | writer fault => foreseen fault.message
  | snapshot (.malformed fault) => foreseen fault.message
  | snapshot .missingValue => unforeseen "list index out of range"
  | snapshot .tooManyDigits | tooManyDigits => unforeseen Text.tooManyDigits
  | imageArgument argument =>
    foreseen ("--elf expects MODULE=PATH, got " ++ Text.quoted argument)
  | route conflict => foreseen conflict.message
  | noInput => foreseen "no input: give --snapshot, --elf or a --config with modules"
  | exporting failure => ofExport failure
  | listing fault => ofSource fault
  | stopped module stop => ofStop module stop
  | unwritable fault => unforeseen fault.message
  | lacking lack => unforeseen lack.message

/-- The failure of a file that was to be read as text. -/
def ofText (use : String) : TextFault → Failure
  | .file fault => .unreadable use fault
  | .octets fault => .notText fault

end Failure

end NativeTypes.CommandLine
