/-
NativeTypes.Source.Basic — a source of debug information, and how it fails.

A source answers three questions about a module: what shape a reference
has, which types the module lists, and how large its pointers are. A
look-up may change the source's own state (it counts queries, it names
inner array dimensions); the state is passed along. A source also tells
whether the run is to stop, which is asked before every query and may be
counted too.
-/
import NativeTypes.Diagnostic
import NativeTypes.Shape

namespace NativeTypes

/-- Why a source could not answer. -/
inductive QueryCause
  | unknownModule (module : String)
  | lookupFailed (ref : Ref) (why : String)
  | pointerSizeFailed (why : String)
  | workerStopped
  | workerNotRunning
  | cannotOpen (path why : String)
  | cannotRead (path why : String)
  | noDebugInformation (path : String)
  | reported (why : String)
  deriving DecidableEq, Repr

/-- The words for a cause. -/
def QueryCause.message : QueryCause → String
  | unknownModule module => "unknown module " ++ Text.quoted module
  | lookupFailed ref why => "lookup of " ++ ref.shown ++ " failed: " ++ why
  | pointerSizeFailed why => "pointer size query failed: " ++ why
  | workerStopped => "provider worker stopped"
  | workerNotRunning => "provider worker is not running"
  | cannotOpen path why => "cannot open " ++ path ++ ": " ++ why
  | cannotRead path why => "cannot read " ++ path ++ ": " ++ why
  | noDebugInformation path => path ++ " has no DWARF debug information"
  | reported why => why

/-- A query that failed, with the module and the reference it was about. -/
structure QueryFault where
  cause : QueryCause
  module : String := ""
  query : Option Ref := none
  deriving DecidableEq, Repr

/-- The report of a query about a module and maybe a type. -/
def queryReport (message module : String) (query : Option String) : Report :=
  ⟨message, Report.detail "module" module ++ Report.detail? "query" query⟩

/-- The report of a failed query. -/
def QueryFault.report (f : QueryFault) : Report :=
  queryReport f.cause.message f.module (f.query.map Ref.text)

/-- How a source fails: it says so, it meets a name or a pointer size that leads nowhere, or it
breaks. -/
inductive SourceFault
  | query (fault : QueryFault)
  | primitive (fault : Primitive.Fault)
  | broken (why : String)
  deriving DecidableEq, Repr

/-- The text of a fault. -/
def SourceFault.text : SourceFault → String
  | query fault => fault.report.text
  | primitive fault => fault.message
  | broken why => why

/-- The fault of a module that a source does not have. -/
def SourceFault.unknownModule (module : String) (query : Option Ref) : SourceFault :=
  .query { cause := .unknownModule module, module := module, query := query }

/-- What can be asked of a source with state `σ`. -/
structure Source (σ : Type) where
  /-- The shape behind a reference; none if the module does not know it. -/
  lookup : σ → String → Ref → Except SourceFault (Option Shape) × σ
  /-- The names of the types that the module defines. -/
  typeNames : σ → String → Except SourceFault (List String)
  /-- The size of a pointer in bytes. -/
  pointerSize : σ → String → Except SourceFault Int
  /-- The run is to stop. -/
  stopRequested : σ → Bool × σ := fun s => (false, s)

/-- A source whose state is a part of a larger one. -/
def Source.within {σ τ : Type} (source : Source σ) (part : τ → σ) (replace : τ → σ → τ) :
    Source τ where
  lookup t module ref :=
    let (answer, s) := source.lookup (part t) module ref
    (answer, replace t s)
  typeNames t := source.typeNames (part t)
  pointerSize t := source.pointerSize (part t)
  stopRequested t :=
    let (stop, s) := source.stopRequested (part t)
    (stop, replace t s)

end NativeTypes
