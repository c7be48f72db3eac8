/-
NativeTypes.Resolver.State — what a resolver knows, and its single steps.

A resolver turns the references of one module into instances. It remembers
every answer of its source and every instance it declared; aggregates that
are declared but not defined wait in a worklist with their shapes. A step
either gives a value or stops; the state it leaves counts in both cases.
-/
import NativeTypes.Diagnostic
import NativeTypes.Registry
import NativeTypes.Source.Basic

namespace NativeTypes

/-- Why a resolver stops. -/
inductive Stop
  /-- The source failed. -/
  | query (fault : QueryFault)
  /-- The run is to stop. -/
  | cancelled (module : String)
  /-- An aggregate that is being defined was reached by value, along this path of keys. -/
  | valueCycle (path : List Key)
  /-- The registry refused an instance. -/
  | registry (message : String)
  /-- An aggregate has no shape to be defined from, because an earlier attempt failed. -/
  | noShape
  /-- An instance has no key. -/
  | noKey
  /-- A number in a name or in a message cannot be written. -/
  | tooManyDigits
  /-- References are nested more deeply than the resolver follows. -/
  | tooDeep

/-- The text of a stop in a module. -/
def Stop.text (module : String) : Stop → String
  | query fault => fault.report.text
  | cancelled module => (Report.mk "generation cancelled" (Report.detail "module" module)).text
  | valueCycle path =>
    let path := path.map (Key.text module)
    ((TypeProblem.valueCycle path).report (path.headD "") module).text
  | registry message => message
  | noShape => "no shape to define a type from"
  | noKey => "a type without a key"
  | tooManyDigits => Text.tooManyDigits
  | tooDeep => "types are nested too deeply"

namespace Resolver

/-- What a resolver knows; `σ` is the state of its source. -/
structure State (σ : Type) where
  session : σ
  graph : Graph := {}
  registry : Registry Key := {}
  diagnostics : List Diagnostic := []
  lastQuery : Option Ref := none
  /-- Answers of the source. -/
  shapes : Assoc Ref (Option Shape) := []
  /-- Instances of references that were declared. -/
  declared : Assoc Ref Handle := []
  /-- The shapes that aggregates were placed with. -/
  placed : Assoc Handle Shape := []
  /-- Aggregates that are not taken up to be defined yet. -/
  placeholders : List Handle := []
  /-- Aggregates to define, the next one first. -/
  worklist : List Handle := []
  /-- Aggregates that are being defined, outermost first. -/
  defining : List Handle := []
  /-- Typedefs whose targets are being declared. -/
  openAliases : List String := []
  pointerSize : Option Int := none
  /-- How many types without name and id were met. -/
  anonymous : Nat := 0

/-- A step of a resolver. -/
abbrev Run (σ : Type) := EStateM Stop (State σ)

/-- What a resolver works on: a module of a source. -/
structure Task (σ : Type) where
  source : Source σ
  module : String

variable {σ : Type} (task : Task σ)

/-! ## 1. The source -/

/-- Stops if the run is to stop. -/
def checkCancelled : Run σ Unit := do
  let (stop, session) := task.source.stopRequested (← get).session
  modify fun s => { s with session }
  if stop then throw (.cancelled task.module)

/-- A failure of the source during a look-up. -/
def lookupStop (ref : Ref) : SourceFault → Stop
  | .query fault => .query fault
  | e =>
    .query { cause := .lookupFailed ref e.text, module := task.module, query := some ref }

/-- A failure of the source to give the pointer size. -/
def pointerSizeStop : SourceFault → Stop
  | .query fault => .query fault
  | e => .query { cause := .pointerSizeFailed e.text, module := task.module }

/-- The shape behind a reference; each reference is looked up once. -/
def query (ref : Ref) : Run σ (Option Shape) := do
  match (← get).shapes.get? ref with
  | some shape => return shape
  | none =>
    checkCancelled task
    let (answer, session) := task.source.lookup (← get).session task.module ref
    modify fun s => { s with session }
    match answer with
    | .error e => throw (lookupStop task ref e)
    | .ok shape =>
      modify fun s => { s with shapes := s.shapes.put ref shape, lastQuery := some ref }
      return shape

/-- The size of a pointer; it is asked for once. -/
def pointerSize : Run σ Int := do
  match (← get).pointerSize with
  | some size => return size
  | none =>
    checkCancelled task
    match task.source.pointerSize (← get).session task.module with
    | .error e => throw (pointerSizeStop task e)
    | .ok size =>
      modify fun s => { s with pointerSize := some size }
      return size

/-! ## 2. Diagnostics and the registry -/

/-- Records a diagnostic. -/
def report (d : Diagnostic) : Run σ Unit :=
  modify fun s => { s with diagnostics := s.diagnostics ++ [d] }

/-- The primary key of an instance. -/
def keyOf (h : Handle) : Run σ Key := do
  match (← get).registry.keyOf? h with
  | some key => return key
  | none => throw .noKey

/-- A new instance under a key. -/
def register (key : Key) (i : Instance) : Run σ Handle := do
  let s ← get
  match s.registry.register key s.graph.count with
  | .ok registry =>
    set { s with graph := s.graph.push i, registry }
    return s.graph.count
  | .error e => throw (.registry (e.message task.module s.graph))

/-- The instance of a key, made if there is none. -/
def ensure (key : Key) (i : Instance) : Run σ Handle := do
  match (← get).registry.get? key with
  | some h => return h
  | none => register task key i

/-- One more key for an instance. -/
def addAlias (key : Key) (h : Handle) : Run σ Unit := do
  let s ← get
  match s.registry.addAlias key h with
  | .ok registry => set { s with registry }
  | .error e => throw (.registry (e.message task.module s.graph))

/-- The placeholder for a type that cannot be described, with a warning when it is new. -/
def undefined (name reason : String) : Run σ Handle := do
  match (← get).registry.get? (.named name) with
  | some h => return h
  | none =>
    report ((TypeProblem.unresolvable reason).diagnostic name task.module)
    register task (.named name) (.undefined name)

/-! ## 3. Names -/

/-- Stops unless what is to be written next can be written. -/
def needWritable (writable : Bool) : Run σ Unit :=
  if writable then pure () else throw .tooManyDigits

/-- The key of a type known by name. -/
def namedKey (name : String) : Run σ Key := do
  match TypeName.parsePlain? name with
  | none => return .named name
  | some t =>
    needWritable t.isWritable
    return .named t.format

/-- A name taken apart into its scopes and its last segment; a text that is no plain type
name is its own last segment. -/
def splitName (name : String) : String × String :=
  match TypeName.parsePlain? name with
  | some t => (t.scopePath, t.shortName)
  | none => ("", name)

/-- The name of a shape; one without name is called by its id, else by a running number. -/
def nameOf (shape : Shape) : Run σ String := do
  if !shape.name.isEmpty then return shape.name
  match shape.typeId with
  | some id => return Shape.anonymousMark ++ "-" ++ String.ofList (Text.hexInt id) ++ ">"
  | none =>
    modify fun s => { s with anonymous := s.anonymous + 1 }
    return Shape.anonymousMark ++ "-" ++ toString (← get).anonymous ++ ">"

end Resolver

end NativeTypes
