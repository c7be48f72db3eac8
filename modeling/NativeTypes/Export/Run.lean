/-
NativeTypes.Export.Run — from the roots of modules to their generated code.

One module: its roots are resolved, the declarations among the registered
types are selected, named, ordered and rendered, and the source is
assembled. Declared is what has a name and is valid and embeds nothing
invalid by value, at any depth; what is left out for what it embeds is
reported. Problems of single types become diagnostics; a failure of the
source or a stop ends the run. Modules do not depend on each other, and
results are given in the order of module names.
-/
import NativeTypes.Diagnostic
import NativeTypes.Instance.Graph
import NativeTypes.Order.Emission
import NativeTypes.Registry
import NativeTypes.Resolver.Define
import NativeTypes.Writer.Basic

namespace NativeTypes.Export

/-- The first invalid instance that `h` embeds by value. -/
def invalidDependency? (g : Graph) (r : Registry Key) (h : Handle) : Option Handle :=
  g.embedded? r.isInvalid h

/-- The named instances that are valid themselves, in the order of keys. -/
def candidates (module : String) (g : Graph) (r : Registry Key) : List Handle :=
  (r.instances module).filter fun h => (g.get h).isNamed && !r.isInvalid h

/-- The instances that are declared. -/
def selected (module : String) (g : Graph) (r : Registry Key) : List Handle :=
  (candidates module g r).filter fun h => (invalidDependency? g r h).isNone

/-- The report of an instance that is left out. -/
def skipped? (module : String) (g : Graph) (r : Registry Key) (h : Handle) : Option Diagnostic :=
  (invalidDependency? g r h).map fun culprit =>
    ⟨.invalidDependency, .warning, module, r.keyText module h,
      "skipped: embeds invalid type " ++ r.keyText module culprit ++ " by value"⟩

/-- The reports of all that is left out. -/
def skippedReports (module : String) (g : Graph) (r : Registry Key) : List Diagnostic :=
  (candidates module g r).filterMap (skipped? module g r)

end NativeTypes.Export

namespace NativeTypes

/-- A module to export; without roots every type it lists is one. -/
structure ModuleRequest where
  module : String
  roots : List Ref := []
  deriving DecidableEq, Repr

/-- The code generated for a module. -/
structure ModuleOutput where
  module : String
  source : String
  declarations : List String
  diagnostics : List Diagnostic
  deriving DecidableEq, Repr

namespace ModuleOutput

/-- An error was recorded. -/
def hasErrors (o : ModuleOutput) : Bool := o.diagnostics.any Diagnostic.isError

/-- The name of the file that holds the source. -/
def filename (o : ModuleOutput) : String := Naming.sanitize o.module ++ ".py"

end ModuleOutput

/-- Why a run ends without a result. -/
inductive ExportFailure
  /-- The run is to stop. -/
  | cancelled (module : String)
  /-- The types of a module cannot be listed. -/
  | listing (module : String) (fault : QueryFault)
  /-- The source failed while a root was resolved. -/
  | resolving (module : String) (root : Ref) (last : Option Ref) (fault : QueryFault)
  /-- The source failed in another way than by a query. -/
  | source (fault : SourceFault)
  /-- The resolver stopped for another reason. -/
  | stopped (stop : Stop)
  /-- Identifiers ran out. -/
  | naming (fault : Naming.AllocationFault)

namespace Export

/-- The report of a stop. -/
def cancelledReport (module : String) : Report :=
  ⟨"generation cancelled", Report.detail "module" module⟩

/-- The report of a run that failed in a module: at which root, and after which query. -/
def runReport (message module : String) (root last : Option String) : Report :=
  ⟨message, ("module", module) :: Report.detail? "root" root ++
    Report.detail? "last_successful_query" last⟩

/-- The report of types that cannot be listed. -/
def listingReport (module : String) (fault : QueryFault) : Report :=
  runReport ("cannot list types of " ++ module ++ ": " ++ fault.report.text) module none none

/-- The report of a root that cannot be resolved. -/
def resolvingReport (module : String) (root : Ref) (last : Option Ref) (fault : QueryFault) :
    Report :=
  runReport ("symbol provider failed while resolving " ++ root.shown ++ ": " ++ fault.report.text)
    module (some root.text) (last.map Ref.text)

/-- How modules are exported. -/
structure Settings where
  writer : Writer
  truncateNamespace : Bool := true
  limits : Resolver.Limits := .usual

variable {σ : Type}

/-- A step of a run; the state of the source is passed along. -/
abbrev Run (σ : Type) := EStateM ExportFailure σ

/-- Stops if the run is to stop. -/
def checkCancelled (source : Source σ) (module : String) : Run σ Unit := do
  let (stop, session) := source.stopRequested (← get)
  set session
  if stop then throw (.cancelled module)

/-- The roots of a request: those it names, or all types that the module lists. -/
def rootsOf (source : Source σ) (request : ModuleRequest) : Run σ (List Ref) := do
  if !request.roots.isEmpty then return request.roots
  match source.typeNames (← get) request.module with
  | .ok names => return names.map .name
  | .error (.query fault) => throw (.listing request.module fault)
  | .error fault => throw (.source fault)

/-- Why the run ends when the resolver stops at a root. -/
def failureOf (module : String) (root : Ref) (last : Option Ref) : Stop → ExportFailure
  | .query fault => .resolving module root last fault
  | .cancelled module => .cancelled module
  | stop => .stopped stop

/-- Resolves roots one after the other. -/
def resolveRoots (limits : Resolver.Limits) (task : Resolver.Task σ) (s : Resolver.State σ) :
    List Ref → Except (ExportFailure × σ) (Resolver.State σ)
  | [] => .ok s
  | root :: rest =>
    match Resolver.resolve task limits root s with
    | .ok _ s => resolveRoots limits task s rest
    | .error stop s => .error (failureOf task.module root s.lastQuery stop, s.session)

/-- Renders declarations; one that fails is reported and left out. -/
def render (w : Writer) (module : String) (g : Graph) (r : Registry Key) (names : NameTable) :
    List Handle → List Fragment × List Diagnostic
  | [] => ([], [])
  | h :: hs =>
    let (fragments, diagnostics) := render w module g r names hs
    match w.declare g names (Naming.members g) h with
    | .ok fragment => (fragment :: fragments, diagnostics)
    | .error e =>
      (fragments, ⟨.renderFailure, .error, module, r.keyText module h, e.text⟩ :: diagnostics)

/-- What is made of a resolved module. -/
def assemble (settings : Settings) (module : String) (g : Graph) (r : Registry Key)
    (diagnostics : List Diagnostic) (names : NameTable) (order : List Handle) : ModuleOutput :=
  let (fragments, failures) := render settings.writer module g r names order
  { module
    source := settings.writer.assemble g module fragments
    declarations := fragments.map Fragment.identifier
    diagnostics := diagnostics ++ skippedReports module g r ++ failures }

/-- Exports one module. -/
def exportModule (source : Source σ) (settings : Settings) (request : ModuleRequest) :
    Run σ ModuleOutput := do
  let module := request.module
  checkCancelled source module
  let roots ← rootsOf source request
  match resolveRoots settings.limits ⟨source, module⟩ (.start (← get)) roots with
  | .error (failure, session) =>
    set session
    throw failure
  | .ok s =>
    set s.session
    let (g, r) := (s.graph, s.registry)
    if (r.instances? (Key.text? module)).isNone then throw (.stopped .tooManyDigits)
    let selection := selected module g r
    let policy : Naming.Policy := { truncateNamespace := settings.truncateNamespace }
    match Naming.allocate policy module g r selection with
    | .error fault => throw (.naming fault)
    | .ok names =>
      let order := Emission.order (r.keyText module) g selection
      checkCancelled source module
      return assemble settings module g r s.diagnostics names order

/-- Exports modules in the order of the requests. -/
def exportAll (source : Source σ) (settings : Settings) :
    List ModuleRequest → Run σ (List ModuleOutput)
  | [] => pure []
  | request :: rest => do
    let output ← exportModule source settings request
    return output :: (← exportAll source settings rest)

/-- Outputs in the order of modules. -/
def sortOutputs (outputs : List ModuleOutput) : List ModuleOutput :=
  outputs.mergeSort fun a b => a.module ≤ b.module

/-- Exports modules; the outputs come in the order of module names. -/
def run (source : Source σ) (settings : Settings) (requests : List ModuleRequest) :
    Run σ (List ModuleOutput) := do
  return sortOutputs (← exportAll source settings requests)

/-- The output of a module. -/
def output? (outputs : List ModuleOutput) (module : String) : Option ModuleOutput :=
  outputs.find? fun o => o.module = module

end Export

end NativeTypes
