/-
NativeTypes.Source.Router — one source made of several, chosen by module.

Each module is bound to one target; binding it again to the same target
changes nothing, to another one is refused. A query about a module without
a target fails like one about a module that a source does not have.
-/
import NativeTypes.Assoc
import NativeTypes.Source.Basic

namespace NativeTypes

/-- Which target answers for which module. -/
structure Router (τ : Type) where
  routes : Assoc String τ := []

/-- A module that is bound to another target already. -/
structure RouteConflict where
  module : String
  deriving DecidableEq, Repr

/-- The message for a conflict. -/
def RouteConflict.message (e : RouteConflict) : String :=
  "module " ++ Text.quoted e.module ++ " already has a symbol provider"

namespace Router

variable {τ : Type} [DecidableEq τ]

/-- The router with a module bound to a target. -/
def add (r : Router τ) (module : String) (target : τ) : Except RouteConflict (Router τ) :=
  match r.routes.get? module with
  | none => .ok { r with routes := r.routes.put module target }
  | some old => if old = target then .ok r else .error ⟨module⟩

/-- The modules in order. -/
def modules (r : Router τ) : List String :=
  (r.routes.map Prod.fst).mergeSort fun a b => a ≤ b

/-- The target of a module that must be bound. -/
def target (r : Router τ) (module : String) (query : Option Ref) : Except SourceFault τ :=
  match r.routes.get? module with
  | some target => .ok target
  | none => .error (.unknownModule module query)

/-- The router as a source, given the source behind each target. -/
def source {σ : Type} (r : Router τ) (behind : τ → Source σ) : Source σ where
  lookup s module ref :=
    match r.target module (some ref) with
    | .ok target => (behind target).lookup s module ref
    | .error e => (.error e, s)
  typeNames s module := do (behind (← r.target module none)).typeNames s module
  pointerSize s module := do (behind (← r.target module none)).pointerSize s module

end Router

end NativeTypes
