/-
NativeTypes.Order.Components — strongly connected components, dependencies
first.

Tarjan's search: nodes are numbered as they are discovered and wait on a
stack; each visit gives the least number that its node reaches on the
stack. A node that reaches nothing older than itself closes a component,
which is taken off the stack down to it.

The search is given twice. `components` nests visits in each other. In
`Loop` a node whose edges are being followed waits on a list of work, with
the number of edges that were followed, until those that were discovered
from it are done; so a long chain of nodes costs room and no depth. What
the loop closes is what the nested visits close. It looks up the numbers of
nodes and takes nodes off the stack without asking whether there are any: a
turn that does not find them is no turn.
-/
import NativeTypes.Assoc

namespace NativeTypes.Components

variable {α : Type} [DecidableEq α]

/-- What a search has found. -/
structure Search (α : Type) where
  /-- The numbers of the nodes discovered so far. -/
  number : Assoc α Nat := []
  /-- Discovered nodes of open components, latest first. -/
  stack : List α := []
  /-- Closed components, in the order of closing. -/
  closed : List (List α) := []

/-- A node that is discovered now. -/
def discover (s : Search α) (v : α) : Search α :=
  { s with number := s.number.put v s.number.length, stack := v :: s.stack }

/-- Closes the component that reaches down the stack to `v`. -/
def close (s : Search α) (v : α) : Search α :=
  { s with stack := (s.stack.dropWhile (· ≠ v)).drop 1
           closed := s.closed ++ [s.stack.takeWhile (· ≠ v) ++ [v]] }

/-- Follows the edges of a node in order; `low` is the least number reached so far. -/
def follow (visit : α → Search α → Nat × Search α) : List α → Nat → Search α → Nat × Search α
  | [], low, s => (low, s)
  | w :: ws, low, s =>
    match s.number.get? w with
    | none =>
      let (reached, s) := visit w s
      follow visit ws (min low reached) s
    | some n => follow visit ws (if s.stack.contains w then min low n else low) s

/-- Visits an undiscovered node; at most `n` visits are inside each other. -/
def visit (next : α → List α) : Nat → α → Search α → Nat × Search α
  | 0, _, s => (0, s)
  | n + 1, v, s =>
    let own := s.number.length
    let (low, s) := follow (visit next n) (next v) own (discover s v)
    (low, if low = own then close s v else s)

/-- Visits nodes in order, those that were not discovered before. -/
def visitAll (next : α → List α) (bound : Nat) : List α → Search α → Search α
  | [], s => s
  | v :: vs, s =>
    visitAll next bound vs
      (if (s.number.get? v).isSome then s else (visit next bound v s).2)

/-- The targets of a node's edges. -/
def targets (edges : Assoc α (Assoc α Bool)) (v : α) : List α :=
  ((edges.get? v).getD []).map Prod.fst

/-- The components of a graph. No visit is nested more deeply than there are nodes and
edges. -/
def components (nodes : List α) (edges : Assoc α (Assoc α Bool)) : List (List α) :=
  let bound := nodes.length + (edges.flatMap Prod.snd).length + 1
  (visitAll (targets edges) bound nodes {}).closed

/-- A search between two turns. -/
structure Loop (α : Type) where
  /-- The nodes that are still to start from. -/
  roots : List α
  /-- The nodes whose edges are followed, each with the number of edges that were, latest first. -/
  work : List (α × Nat) := []
  /-- The least number that each node has reached so far. -/
  low : Assoc α Nat := []
  search : Search α := {}

/-- A node has also reached the number `m`. -/
def lower? (low : Assoc α Nat) (v : α) (m : Nat) : Option (Assoc α Nat) :=
  (low.get? v).map fun k => low.put v (min k m)

/-- Takes nodes off a stack down to `v`: those that are taken, and those that are left. -/
def takeDown? (v : α) : List α → Option (List α × List α)
  | [] => none
  | w :: ws => if w = v then some ([w], ws) else (takeDown? v ws).map (Prod.map (w :: ·) id)

/-- Closes the component that reaches down the stack to `v`. -/
def closeDown? (s : Search α) (v : α) : Option (Search α) :=
  (takeDown? v s.stack).map fun (c, stack) => { s with stack, closed := s.closed ++ [c] }

namespace Loop

/-- Follows edges of `v` in order, `n` of them were followed before, up to one that leads to a node
not discovered yet: that node, and how many were followed with it. -/
def scan? (s : Search α) (v : α) :
    List α → Nat → Assoc α Nat → Option (Assoc α Nat × Option (α × Nat))
  | [], _, low => some (low, none)
  | w :: ws, n, low =>
    match s.number.get? w with
    | none => some (low, some (w, n + 1))
    | some m =>
      (if s.stack.contains w then lower? low v m else some low).bind (scan? s v ws (n + 1))

/-- Discovers a node. -/
def enter (v : α) (l : Loop α) : Loop α :=
  { l with low := l.low.put v l.search.number.length, search := discover l.search v }

/-- The node that waits on top of the work, if there is one, has also reached the number `m`. -/
def passOn? (low : Assoc α Nat) (m : Nat) : List (α × Nat) → Option (Assoc α Nat)
  | [] => some low
  | (u, _) :: _ => lower? low u m

/-- Leaves a node: it closes its component if it reaches nothing older than itself, and the node
that waits for it reaches what it reaches. -/
def leave? (v : α) (l : Loop α) : Option (Loop α) := do
  let least ← l.low.get? v
  let own ← l.search.number.get? v
  let search ← (if least = own then closeDown? l.search v else some l.search)
  let low ← passOn? l.low least l.work
  some { l with low, search }

/-- Follows the edges of `v` behind the first `n`: the node goes back to the work below one that it
leads to, or is left. -/
def resume? (next : α → List α) (v : α) (n : Nat) (l : Loop α) : Option (Loop α) :=
  match scan? l.search v ((next v).drop n) n l.low with
  | none => none
  | some (low, some (w, m)) => some { l with low, work := (w, 0) :: (v, m) :: l.work }
  | some (low, none) => leave? v { l with low }

/-- One turn, if there is anything left to do. A node of which no edge was followed is a new
one. -/
def turn? (next : α → List α) (l : Loop α) : Option (Loop α) :=
  match l.work, l.roots with
  | (v, 0) :: work, _ => resume? next v 0 (enter v { l with work })
  | (v, n + 1) :: work, _ => resume? next v (n + 1) { l with work }
  | [], v :: roots =>
    if (l.search.number.get? v).isSome then some { l with roots }
    else some { l with roots, work := [(v, 0)] }
  | [], [] => none

end Loop

end NativeTypes.Components
