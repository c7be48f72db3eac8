/-
NativeTypes.Resolver.Define — aggregates take their bases and fields.

What an aggregate embeds by value is defined before it goes on. Reaching an
aggregate that is being defined is a cycle: every aggregate on it becomes
invalid and is finalized as it is, the one it was entered at reports it,
and everything else goes on. An aggregate whose parts do not fit becomes
invalid too, but keeps its parts.
-/
import NativeTypes.Resolver.Declare
import NativeTypes.Resolver.Layout

namespace NativeTypes.Resolver

variable {σ : Type} (task : Task σ)

/-- Finalizes an aggregate. -/
def finalize (h : Handle) : Run σ Unit := modify fun s => { s with graph := s.graph.finalize h }

/-- Marks an instance invalid. -/
def markInvalid (h : Handle) (reason : String) : Run σ Unit :=
  modify fun s => { s with registry := s.registry.markInvalid h reason }

/-- A change of the graph that is not refused. -/
def changeGraph (f : Graph → Except ChangeFault Graph) : Run σ Unit :=
  modify fun s => { s with graph := (f s.graph).toOption.getD s.graph }

/-- The element of an array, at any depth; of all else the instance itself. -/
def innermost (g : Graph) (h : Handle) : Handle :=
  match g.get h with
  | .array element _ => if element < h then innermost g element else h
  | _ => h
termination_by h

/-- The keys of the aggregates that are being defined, from `h` on. -/
def cycleFrom (h : Handle) : Run σ (List Key) := do
  keysOf ((← get).defining.dropWhile (· ≠ h))

section
variable (declare : Ref → Run σ Handle) (define : Handle → Run σ Unit)

/-- Defines what an instance embeds by value. -/
def defineValue (h : Handle) : Run σ Unit := do
  let g := (← get).graph
  let inner := innermost g h
  match g.get inner with
  | .aggregate a => if !a.isFinalized then define inner
  | _ => pure ()

/-- A part is declared and what it embeds is defined. -/
def definePart (ref : Ref) : Run σ Handle := do
  let h ← declare ref
  defineValue define h
  return h

/-- The bases of an aggregate, in order. -/
def defineBases (owner : Handle) : List BaseShape → Run σ Unit
  | [] => pure ()
  | b :: bs => do
    let type ← definePart declare define b.type
    changeGraph fun g => g.addBase owner ⟨type, b.offset, b.isTruth⟩
    defineBases owner bs

/-- The fields of an aggregate, in order. -/
def defineFields (owner : Handle) : List FieldShape → Run σ Unit
  | [] => pure ()
  | f :: fs => do
    let type ← definePart declare define f.type
    changeGraph fun g =>
      g.addField owner ⟨f.name, type, f.offset, f.bitOffset, f.bitWidth, f.isTruth⟩
    defineFields owner fs

/-- Marks and reports an aggregate whose parts do not fit. -/
def checkLayout (h : Handle) : Run σ Unit := do
  let s ← get
  match s.graph.get h with
  | .aggregate a =>
    match s.graph.layoutFault? a with
    | none => pure ()
    | some fault =>
      let key ← keyOf h
      needWritable fault.isWritable
      markInvalid h fault.message
      report ((TypeProblem.invalidLayout fault.message).diagnostic (key.text task.module)
        task.module)
  | _ => pure ()

/-- Bases, fields and the check of an aggregate that was taken up. -/
def defineBody (h : Handle) (shape : Shape) : Run σ Unit := do
  defineBases declare define h shape.bases
  defineFields declare define h shape.fields
  checkLayout task h

/-- What an aggregate does when a cycle comes through it: it ends as it is. The one that the
cycle was entered at reports it, the others pass it on. -/
def meetCycle (h : Handle) (path : List Key) : Run σ Unit := do
  let problem := TypeProblem.valueCycle (path.map (Key.text task.module))
  markInvalid h problem.message
  finalize h
  let key ← keyOf h
  if path.head? = some key then
    report (problem.diagnostic (key.text task.module) task.module)
  else throw (.valueCycle path)

/-- Runs with an aggregate being defined, which is over however the run ends. -/
def whileDefining {α : Type} (h : Handle) (run : Run σ α) : Run σ α := fun s =>
  let leave (s : State σ) := { s with defining := s.defining.dropLast }
  match run { s with defining := s.defining ++ [h] } with
  | .ok a s => .ok a (leave s)
  | .error e s => .error e (leave s)

/-- The body, with cycles met. -/
def defineCaught (h : Handle) (shape : Shape) : Run σ Unit := fun s =>
  match defineBody task declare define h shape s with
  | .ok _ s => finalize h s
  | .error (.valueCycle path) s => meetCycle task h path s
  | .error e s => .error e s

/-- The shape that an aggregate waits with; it is handed out once. -/
def takeShape (h : Handle) : Run σ Shape := do
  let s ← get
  match s.placed.get? h with
  | none => throw .noShape
  | some shape =>
    if !s.placeholders.contains h then throw .noShape
    set { s with placeholders := s.placeholders.erase h }
    return shape

/-- Defines an aggregate. -/
def defineOnce (h : Handle) : Run σ Unit := do
  if (← get).defining.contains h then throw (.valueCycle (← cycleFrom h))
  let shape ← takeShape h
  whileDefining h (defineCaught task declare define h shape)

end

/-- Defines an aggregate, with at most `n` aggregates inside each other. -/
def define (depth : Nat) : Nat → Handle → Run σ Unit
  | 0, _ => throw .tooDeep
  | n + 1, h => defineOnce task (declare task depth) (define depth n) h

/-- Defines the aggregates of the worklist, at most `n` of them. -/
def drain (depth : Nat) : Nat → Run σ Unit
  | 0 => do
    if !(← get).worklist.isEmpty then throw .tooDeep
  | n + 1 => do
    match (← get).worklist with
    | [] => pure ()
    | h :: rest =>
      modify fun s => { s with worklist := rest }
      if !((← get).graph.get h).isFinalized then define task depth depth h
      drain depth n

/-! ## Resolving -/

/-- How far a resolver goes: how deeply it follows references and how many aggregates it
defines. -/
structure Limits where
  depth : Nat
  total : Nat

/-- Far enough for every module whose references do not run in endless chains. -/
def Limits.usual : Limits := ⟨2000, 1000000000⟩

/-- Declares references and defines nothing yet. -/
def declareRoots (limits : Limits) (refs : List Ref) : Run σ (List Handle) :=
  declareAll (declare task limits.depth) refs

/-- Resolves references: declares them all, then defines every aggregate that was met. -/
def resolveAll (limits : Limits) (refs : List Ref) : Run σ (List Handle) := do
  let roots ← declareRoots task limits refs
  drain task limits.depth limits.total
  return roots

/-- Resolves one reference. -/
def resolve (limits : Limits) (ref : Ref) : Run σ Handle := do
  let root ← declare task limits.depth ref
  drain task limits.depth limits.total
  return root

/-- A resolver that knows nothing yet. -/
def State.start (session : σ) : State σ := { session }

end NativeTypes.Resolver
