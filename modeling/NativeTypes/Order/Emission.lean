/-
NativeTypes.Order.Emission — what declarations depend on, and the order in
which they are written.

Between declarations lie instances without names: pointers, arrays and
scalars. They are looked through; an edge is by value when every step of
some way is. A named instance ends the way, whether it is declared or not.

Components come dependencies first; inside a component whatever is embedded
by value comes before what embeds it, and of what may come next the
smallest key comes first. Only references go around in a component, unless
types embed each other: these stand at the end of it, in the order of keys.
-/
import NativeTypes.Instance.Graph
import NativeTypes.Order.Components

namespace NativeTypes.Graph

/-- The steps that a way goes on with: none behind a named instance. -/
def steps (g : Graph) (step : Handle × Bool) : List (Handle × Bool) :=
  if (g.get step.1).isNamed then []
  else (g.get step.1).parts.map fun part => (part.1, step.2 && part.2)

/-- Every step that can be taken. -/
def allSteps (g : Graph) : List (Handle × Bool) :=
  g.handles.flatMap fun h => [(h, true), (h, false)]

/-- The edge to a target that was met: by value if it ever was met so. -/
def addEdge (edges : Assoc Handle Bool) (step : Handle × Bool) : Assoc Handle Bool :=
  edges.put step.1 (step.2 || (edges.get? step.1).getD false)

/-- The declarations among `nodes` that `h` depends on, in the order of meeting, each with
the flag that says whether it is embedded by value. -/
def declarationEdges (g : Graph) (nodes : List Handle) (h : Handle) : Assoc Handle Bool :=
  ((visits g.steps g.allSteps (g.get h).parts).filter fun step =>
    (g.get step.1).isNamed && nodes.contains step.1 && step.1 != h).foldl addEdge []

end NativeTypes.Graph

namespace NativeTypes.Emission

variable (key : Handle → String)

/-- The order of declarations: by key, then by handle. -/
def le (a b : Handle) : Bool := key a < key b || (key a == key b && a ≤ b)

/-- The least of several. -/
def least? : List Handle → Option Handle
  | [] => none
  | v :: vs =>
    match least? vs with
    | none => some v
    | some w => some (if le key v w then v else w)

/-- What `v` embeds by value among `members`, itself apart. -/
def embeds (edges : Assoc Handle (Assoc Handle Bool)) (members : List Handle) (v : Handle) :
    List Handle :=
  (((edges.get? v).getD []).filter fun e => e.2 && members.contains e.1 && e.1 != v).map Prod.fst

/-- Nothing that `v` embeds is among those that remain. -/
def isReady (needs : Handle → List Handle) (remaining : List Handle) (v : Handle) : Bool :=
  (needs v).all fun w => !remaining.contains w

/-- Takes the least node that is ready, as long as there is one; the rest follows by key. -/
def place (needs : Handle → List Handle) (remaining : List Handle) : List Handle :=
  match least? key (remaining.filter (isReady needs remaining)) with
  | none => remaining.mergeSort fun a b => key a ≤ key b
  | some v => if v ∈ remaining then v :: place needs (remaining.erase v) else remaining
termination_by remaining.length
decreasing_by
  rename_i hv
  have := List.length_erase_of_mem hv
  have := List.length_pos_of_mem hv
  omega

/-- The order inside a component. -/
def orderComponent (edges : Assoc Handle (Assoc Handle Bool)) (members : List Handle) :
    List Handle :=
  place key (embeds edges members) members

/-- The edges between all declarations. -/
def allEdges (g : Graph) (nodes : List Handle) : Assoc Handle (Assoc Handle Bool) :=
  nodes.map fun v => (v, g.declarationEdges nodes v)

/-- The order in which instances are declared. -/
def order (g : Graph) (instances : List Handle) : List Handle :=
  let nodes := instances.mergeSort fun a b => key a ≤ key b
  let edges := allEdges g nodes
  (Components.components nodes edges).flatMap (orderComponent key edges)

end NativeTypes.Emission
