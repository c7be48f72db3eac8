/-
NativeTypes.Worker.Machine — a state that only one thread may touch.

A worker owns the state of a service. Its thread builds the state, then
performs requests one after the other, in the order in which they were
accepted. Clients start and stop the worker, hand in requests and may cancel
those that are not performed yet. A stop is a mark behind all requests: what
stands in front of it is still performed, and nothing is accepted any more.

A step is what no other thread can divide: what a client does while it holds
the lock, or what the worker's thread does between two looks at what is
shared. A run is a list of steps of any clients and of the thread, in any
order; `step` says what each does.
-/
import NativeTypes.Assoc

namespace NativeTypes.Worker

/-- What a worker does: how its state is built, which may fail, and how a request is
performed. -/
structure Service (σ ρ β ε : Type) where
  build : Except ε σ
  perform : ρ → σ → β × σ

/-- What the worker's thread is doing. -/
inductive Phase
  /-- It was not started. -/
  | idle
  | building
  /-- Building failed; those who wait for the start are not told yet. -/
  | failing
  /-- It takes the next request, or waits for one. -/
  | serving
  /-- It took the request with this number and has not begun it; the request can be cancelled
  still. -/
  | taking (number : Nat)
  /-- It performs the request with this number. -/
  | performing (number : Nat)
  /-- It turns away what stands behind the stop mark. -/
  | draining
  | ended
  deriving DecidableEq, Repr

/-- How a request ended. -/
inductive Outcome (β : Type)
  | answered (answer : β)
  /-- It stood behind the stop mark. -/
  | turnedAway
  | cancelled
  deriving DecidableEq, Repr

/-- A worker. Requests are numbered in the order in which they are accepted. -/
structure State (σ ρ β ε : Type) where
  /-- The thread was started. -/
  started : Bool := false
  /-- Nothing is accepted any more. -/
  stopped : Bool := false
  phase : Phase := .idle
  /-- The state of the service, once it is built. -/
  inner : Option σ := none
  /-- What those who wait for the start are told. -/
  ready : Option (Except ε Unit) := none
  /-- What the thread has not taken yet; `none` is the stop mark. -/
  queue : List (Option Nat) := []
  /-- Every accepted request. -/
  requests : List ρ := []
  /-- The requests that have ended. -/
  outcomes : Assoc Nat (Outcome β) := []
  /-- The numbers of the performed requests, in the order of performing. -/
  performed : List Nat := []
  /-- How often the state of the service was given back. -/
  closes : Nat := 0

section
variable {σ ρ β ε : Type}

/-! ## 1. What clients do -/

/-- The thread was started and has not ended. -/
def isAlive (s : State σ ρ β ε) : Bool := s.phase ≠ .idle && s.phase ≠ .ended

/-- Requests are accepted. -/
def isRunning (s : State σ ρ β ε) : Bool := s.started && !s.stopped && isAlive s

/-- Starts the thread, the first time. -/
def start (s : State σ ρ β ε) : State σ ρ β ε :=
  if s.started then s else { s with started := true, phase := .building }

/-- Hands in a request; gives its number, or nothing if it is not accepted. -/
def submit? (s : State σ ρ β ε) (r : ρ) : Option (Nat × State σ ρ β ε) :=
  if isRunning s then
    some (s.requests.length,
      { s with requests := s.requests ++ [r], queue := s.queue ++ [some s.requests.length] })
  else none

/-- Stops the worker; only the first stop of a started worker leaves a mark. -/
def stop (s : State σ ρ β ε) : State σ ρ β ε :=
  if s.started && !s.stopped then { s with stopped := true, queue := s.queue ++ [none] }
  else { s with stopped := true }

/-- The request has ended. -/
def isDone (s : State σ ρ β ε) (n : Nat) : Bool := s.outcomes.has n

/-- Cancels an accepted request, unless it is being performed or has ended. -/
def cancel (s : State σ ρ β ε) (n : Nat) : State σ ρ β ε :=
  if n < s.requests.length && s.phase ≠ .performing n && !isDone s n then
    { s with outcomes := s.outcomes.put n .cancelled }
  else s

/-! ## 2. What the thread does -/

/-- Builds the state. A failure is noted first: nothing is accepted after it. -/
def build (service : Service σ ρ β ε) (s : State σ ρ β ε) : State σ ρ β ε :=
  match service.build with
  | .ok inner => { s with phase := .serving, inner := some inner, ready := some (.ok ()) }
  | .error _ => { s with phase := .failing, stopped := true }

/-- Tells those who wait that building failed. -/
def fail (service : Service σ ρ β ε) (s : State σ ρ β ε) : State σ ρ β ε :=
  { s with phase := .ended, ready := some (service.build.map fun _ => ()) }

/-- Takes what comes next. Nothing happens while there is none. -/
def take? (s : State σ ρ β ε) : Option (State σ ρ β ε) :=
  match s.queue with
  | [] => none
  | none :: rest => some { s with phase := .draining, queue := rest }
  | some n :: rest => some { s with phase := .taking n, queue := rest }

/-- Begins the request that was taken; a cancelled one is passed over. -/
def enter (s : State σ ρ β ε) (n : Nat) : State σ ρ β ε :=
  if isDone s n then { s with phase := .serving } else { s with phase := .performing n }

/-- Performs a request. -/
def perform (service : Service σ ρ β ε) (s : State σ ρ β ε) (n : Nat) : State σ ρ β ε :=
  match s.inner, s.requests[n]? with
  | some inner, some r =>
    let (answer, inner) := service.perform r inner
    { s with phase := .serving, inner := some inner
             outcomes := s.outcomes.put n (.answered answer), performed := s.performed ++ [n] }
  | _, _ => { s with phase := .serving }

/-- Turns away what comes next; when there is nothing more, the state is given back. -/
def drain (s : State σ ρ β ε) : State σ ρ β ε :=
  match s.queue with
  | [] => { s with phase := .ended, closes := s.closes + 1 }
  | none :: rest => { s with queue := rest }
  | some n :: rest => { s with queue := rest, outcomes := s.outcomes.putNew n .turnedAway }

/-- One step of the thread, unless it waits or does not run. -/
def advance? (service : Service σ ρ β ε) (s : State σ ρ β ε) : Option (State σ ρ β ε) :=
  match s.phase with
  | .idle | .ended => none
  | .building => some (build service s)
  | .failing => some (fail service s)
  | .serving => take? s
  | .taking n => some (enter s n)
  | .performing n => some (perform service s n)
  | .draining => some (drain s)

/-! ## 3. Runs -/

/-- A step: something that a client does, or the thread going on. -/
inductive Label (ρ : Type)
  | start
  | submit (request : ρ)
  | stop
  | cancel (number : Nat)
  | advance
  deriving DecidableEq, Repr

/-- What a step leads to; none if it is not possible now. -/
def step (service : Service σ ρ β ε) (s : State σ ρ β ε) : Label ρ → Option (State σ ρ β ε)
  | .start => some (start s)
  | .submit r => some (((submit? s r).map Prod.snd).getD s)
  | .stop => some (stop s)
  | .cancel n => some (cancel s n)
  | .advance => advance? service s

/-- What a list of steps leads to. -/
def run (service : Service σ ρ β ε) (s : State σ ρ β ε) : List (Label ρ) → Option (State σ ρ β ε)
  | [] => some s
  | l :: ls => (step service s l).bind fun s => run service s ls

/-- The thread goes on until it waits or ends, for at most so many steps. -/
def settleWithin (service : Service σ ρ β ε) : Nat → State σ ρ β ε → State σ ρ β ε
  | 0, s => s
  | n + 1, s =>
    match advance? service s with
    | none => s
    | some s => settleWithin service n s

/-- The thread goes on until it waits or ends. Each request takes three steps at most, and what
comes before and after all of them five. -/
def settle (service : Service σ ρ β ε) (s : State σ ρ β ε) : State σ ρ β ε :=
  settleWithin service (3 * s.queue.length + 5) s

end

end NativeTypes.Worker
