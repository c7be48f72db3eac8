/-
NativeTypes.Export.Schedule — modules exported side by side.

Workers take up modules in the order of the requests, as many at a time as
there are workers. Finished modules are collected in any order, one by one.
The first failure that is collected asks all modules that are still being
exported to stop; they see that when they ask the next time. A failure of
the run is told rather than the stops that it led to.

A schedule is a list of steps of any workers and of the collector; `step?`
says what each does, and whether it can be taken. An export between two of
its questions whether to stop does nothing that another export sees, so it
advances from question to question.
-/
import NativeTypes.Export.Run
import NativeTypes.Source.Session

namespace NativeTypes

/-- The failure is a stop that was asked for. -/
def ExportFailure.isCancelled : ExportFailure → Bool
  | cancelled _ => true
  | _ => false

/-- The collector goes on after this failure: a stop, or a failed query. Any other ends it. -/
def ExportFailure.isExpected : ExportFailure → Bool
  | cancelled _ | listing .. | resolving .. => true
  | _ => false

namespace Schedule

open Export

/-- What is exported, by how many workers. Every export starts from the same state of the
source. -/
structure Plan (σ : Type) where
  source : Source σ
  start : σ
  settings : Settings
  requests : List ModuleRequest
  workers : Nat

/-- How far the export of a module is. -/
inductive Task
  | waiting
  /-- It has asked so many times whether to stop. -/
  | exporting (polls : Nat)
  | finished (result : Except ExportFailure ModuleOutput)
  | collected

namespace Task

/-- Nobody has taken it up. -/
def isWaiting : Task → Bool
  | waiting => true
  | _ => false

/-- It takes up a worker. -/
def isExporting : Task → Bool
  | exporting _ => true
  | _ => false

/-- It was collected. -/
def isCollected : Task → Bool
  | collected => true
  | _ => false

/-- It is over, collected or not. -/
def isOver (t : Task) : Bool := !t.isWaiting && !t.isExporting

end Task

/-- What workers and the collector have done. -/
structure State where
  /-- The tasks in the order of the requests. -/
  tasks : List Task
  /-- The outputs in the order of collecting. -/
  outputs : List ModuleOutput := []
  /-- Everyone is asked to stop. -/
  aborted : Bool := false
  /-- The failure that is told at the end. -/
  failure : Option ExportFailure := none
  /-- A failure that ended the collector. -/
  escaped : Option ExportFailure := none

/-- What one step does to the task at a place. -/
inductive Action
  | take (place : Nat)
  | advance (place : Nat)
  | collect (place : Nat)
  deriving DecidableEq, Repr

/-- Nothing is done yet. -/
def State.initial (requests : List ModuleRequest) : State :=
  { tasks := requests.map fun _ => .waiting }

/-- The state with another task at a place. -/
def State.put (s : State) (place : Nat) (t : Task) : State :=
  { s with tasks := s.tasks.set place t }

section
variable {σ : Type} (plan : Plan σ)

/-- How the export of a module ends if it is asked to stop at its question `first`, and how
many questions it asks. -/
def attempt (request : ModuleRequest) (first : Option Nat) :
    Except ExportFailure ModuleOutput × Nat :=
  match exportModule (plan.source.stopFrom first) plan.settings request { inner := plan.start } with
  | .ok output s => (.ok output, s.polls)
  | .error failure s => (.error failure, s.polls)

/-- How the export of a module ends by itself. -/
def ownResult (request : ModuleRequest) : Except ExportFailure ModuleOutput :=
  (attempt plan request none).1

/-! ## 1. Steps -/

/-- A free worker takes up a task, if none before it waits. -/
def take? (s : State) (place : Nat) : Option State :=
  match s.tasks[place]? with
  | some .waiting =>
    if (s.tasks.take place).any Task.isWaiting || plan.workers ≤ s.tasks.countP Task.isExporting
    then none
    else some (s.put place (.exporting 0))
  | _ => none

/-- A task goes on to its next question, or to its end. -/
def advance? (s : State) (place : Nat) : Option State :=
  match s.tasks[place]?, plan.requests[place]? with
  | some (.exporting polls), some request =>
    if s.aborted then some (s.put place (.finished (attempt plan request (some polls)).1))
    else if polls < (attempt plan request none).2 then some (s.put place (.exporting (polls + 1)))
    else some (s.put place (.finished (ownResult plan request)))
  | _, _ => none

/-- A collected failure. A stop gives way to a failure of the run, and that to none. -/
def State.fail (s : State) (failure : ExportFailure) : State :=
  if failure.isExpected then
    { s with aborted := true
             failure := if s.failure.all ExportFailure.isCancelled then some failure
                        else s.failure }
  else { s with escaped := some failure }

/-- The collector takes what a finished task has come to. -/
def collect? (s : State) (place : Nat) : Option State :=
  if s.escaped.isSome then none
  else
    match s.tasks[place]? with
    | some (.finished (.ok output)) =>
      some { s.put place .collected with outputs := s.outputs ++ [output] }
    | some (.finished (.error failure)) => some ((s.put place .collected).fail failure)
    | _ => none

/-- One step, if it can be taken. -/
def step? (s : State) : Action → Option State
  | .take place => take? plan s place
  | .advance place => advance? plan s place
  | .collect place => collect? s place

/-- The steps of a schedule one after the other. -/
def follow? (s : State) : List Action → Option State
  | [] => some s
  | a :: rest => (step? plan s a).bind fun s => follow? s rest

/-! ## 2. Results -/

/-- What a run comes to, once all is over. -/
def State.result? (s : State) : Option (Except ExportFailure (List ModuleOutput)) :=
  match s.escaped with
  | some failure => if s.tasks.all Task.isOver then some (.error failure) else none
  | none =>
    if s.tasks.all Task.isCollected then
      some (match s.failure with
        | some failure => .error failure
        | none => .ok (sortOutputs s.outputs))
    else none

/-- What a run of one worker comes to: modules one after the other. -/
def sequential : Except ExportFailure (List ModuleOutput) :=
  match Export.run plan.source plan.settings plan.requests plan.start with
  | .ok outputs _ => .ok outputs
  | .error failure _ => .error failure

/-- What a run comes to under a schedule, if the schedule is one that leads to an end. One
worker, or one module, needs none. -/
def result? (schedule : List Action) : Option (Except ExportFailure (List ModuleOutput)) :=
  if plan.workers ≤ 1 || plan.requests.length ≤ 1 then some (sequential plan)
  else (follow? plan (.initial plan.requests) schedule).bind State.result?

end

end Schedule

end NativeTypes
