/-
NativeTypes.Source.Session — sources that fail or are stopped.

A session is a catalog that is asked over a connection. It loses some of its
look-ups, its listings or its pointer sizes, and can be stopped after a
number of look-ups. A lost look-up is not counted. The stop is seen when the
session starts and after every look-up that answered.

The wish to stop may come at any other moment of a run too, but a run sees
it only when it asks. So a moment is the number of the first question that
is answered with a stop; every later one is answered so as well. `Polled`
counts these questions for any source (`Source.stopFrom`).
-/
import NativeTypes.Source.Basic
import NativeTypes.Source.Catalog

namespace NativeTypes

/-- How a session fails. -/
structure SessionFaults where
  /-- References whose look-up is lost. -/
  lost : List Ref := []
  /-- A lost look-up says that the session is closed, instead of breaking. -/
  saysClosed : Bool := false
  listing : Bool := false
  pointerSize : Bool := false
  /-- The number of look-ups after which the run is to stop. -/
  stopAfter : Option Nat := none

/-- A catalog and whether the run is to stop. -/
structure Session where
  catalog : Catalog
  stopped : Bool

namespace Session

/-- The catalog has answered as often as the run may go on. -/
def due (faults : SessionFaults) (c : Catalog) : Bool := faults.stopAfter.any (· ≤ c.queries)

/-- A session that starts on a catalog. -/
def start (faults : SessionFaults) (c : Catalog) : Session := ⟨c, due faults c⟩

/-- The fault of a lost look-up. -/
def lostFault (faults : SessionFaults) (module : String) (ref : Ref) : SourceFault :=
  if faults.saysClosed then
    .query { cause := .reported "session closed", module, query := some ref }
  else .broken "debug session lost"

/-- A look-up. -/
def lookup (faults : SessionFaults) (s : Session) (module : String) (ref : Ref) :
    Except SourceFault (Option Shape) × Session :=
  if faults.lost.contains ref then (.error (lostFault faults module ref), s)
  else
    match s.catalog.lookup module ref with
    | (.ok shape, c) => (.ok shape, ⟨c, s.stopped || due faults c⟩)
    | (.error e, c) => (.error e, { s with catalog := c })

/-- The names that a module lists. -/
def typeNames (faults : SessionFaults) (s : Session) (module : String) :
    Except SourceFault (List String) :=
  if faults.listing then .error (.query { cause := .reported "listing failed", module })
  else s.catalog.typeNames module

/-- The size of the pointers of a module. -/
def pointerSize (faults : SessionFaults) (s : Session) (module : String) :
    Except SourceFault Int :=
  if faults.pointerSize then .error (.broken "no pointer size") else s.catalog.pointerSize module

/-- A session with these faults as a source. -/
def source (faults : SessionFaults) : Source Session where
  lookup := lookup faults
  typeNames := typeNames faults
  pointerSize := pointerSize faults
  stopRequested s := (s.stopped, s)

end Session

/-- The state of a source and how often it was asked whether to stop. -/
structure Polled (σ : Type) where
  inner : σ
  polls : Nat := 0
  deriving DecidableEq, Repr

/-- A source that wants the run to stop from the question with the number `first` on, and
whenever the source itself wants that. -/
def Source.stopFrom {σ : Type} (source : Source σ) (first : Option Nat) : Source (Polled σ) :=
  { source.within Polled.inner fun s inner => { s with inner } with
    stopRequested := fun s =>
      let (stop, inner) := source.stopRequested s.inner
      (stop || first.any (· ≤ s.polls), ⟨inner, s.polls + 1⟩) }

end NativeTypes
