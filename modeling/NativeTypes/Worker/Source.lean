/-
NativeTypes.Worker.Source — a source behind a worker.

The questions of a source become requests; a client that waits for its
answer sees what the source itself would have said. A question that is asked
while a request is performed is part of that request and answered at once.
-/
import NativeTypes.Source.Basic
import NativeTypes.Worker.Machine

namespace NativeTypes.Worker

/-- A question to a source. -/
inductive Query
  | shape (module : String) (ref : Ref)
  | typeNames (module : String)
  | pointerSize (module : String)
  /-- A question that the answer to a request asks in turn. -/
  | nested (query : Query)
  deriving DecidableEq, Repr

/-- The answer of a source. -/
inductive Reply
  | shape (answer : Except SourceFault (Option Shape))
  | typeNames (answer : Except SourceFault (List String))
  | pointerSize (answer : Except SourceFault Int)

section
variable {σ ε : Type}

/-- The answer of a source to a question. -/
def answer (source : Source σ) : Query → σ → Reply × σ
  | .shape module ref, s => (.shape (source.lookup s module ref).1, (source.lookup s module ref).2)
  | .typeNames module, s => (.typeNames (source.typeNames s module), s)
  | .pointerSize module, s => (.pointerSize (source.pointerSize s module), s)
  | .nested query, s => answer source query s

/-- A source as a service. -/
def serviceOf (source : Source σ) (build : Except ε σ) : Service σ Query Reply ε :=
  ⟨build, answer source⟩

/-- The fault of a request that is not accepted. -/
def notRunning : SourceFault := .query { cause := .workerNotRunning }

/-- The fault of a request that was turned away. -/
def wasStopped : SourceFault := .query { cause := .workerStopped }

/-- A reply that is a fault, of the kind that a question has. -/
def Query.fail (fault : SourceFault) : Query → Reply
  | shape .. => .shape (.error fault)
  | typeNames _ => .typeNames (.error fault)
  | pointerSize _ => .pointerSize (.error fault)
  | nested query => query.fail fault

/-- Asks a question and waits for the reply. -/
def call (service : Service σ Query Reply ε) (s : State σ Query Reply ε) (query : Query) :
    Reply × State σ Query Reply ε :=
  match submit? s query with
  | none => (query.fail notRunning, s)
  | some (number, accepted) =>
    let after := settle service accepted
    match after.outcomes.get? number with
    | some (.answered reply) => (reply, after)
    | _ => (query.fail wasStopped, after)

/-- The shape in a reply. -/
def Reply.shape? : Reply → Except SourceFault (Option Shape)
  | shape answer => answer
  | _ => .error wasStopped

/-- The names in a reply. -/
def Reply.typeNames? : Reply → Except SourceFault (List String)
  | typeNames answer => answer
  | _ => .error wasStopped

/-- The size in a reply. -/
def Reply.pointerSize? : Reply → Except SourceFault Int
  | pointerSize answer => answer
  | _ => .error wasStopped

/-- A source behind a worker. The wish to stop is seen without asking the worker. -/
def source (inner : Source σ) (service : Service σ Query Reply ε) :
    Source (State σ Query Reply ε) where
  lookup s module ref :=
    let (reply, s) := call service s (.shape module ref)
    (reply.shape?, s)
  typeNames s module := (call service s (.typeNames module)).1.typeNames?
  pointerSize s module := (call service s (.pointerSize module)).1.pointerSize?
  stopRequested s :=
    match s.inner, service.build with
    | some state, _ => ((inner.stopRequested state).1, s)
    | none, .ok state => ((inner.stopRequested state).1, s)
    | none, .error _ => (false, s)

end

end NativeTypes.Worker
