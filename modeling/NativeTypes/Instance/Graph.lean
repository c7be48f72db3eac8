/-
NativeTypes.Instance.Graph — the type graph: instances by handle, and walks
along its edges.

The parts of an instance that is no aggregate have smaller handles, so what
is computed along them ends. Aggregates change only through `addBase`,
`addField`, `assign` and `finalize`, and not at all once finalized. `fix`
goes half of that way: it fixes the attributes and leaves the parts open.

Aggregates lead anywhere, so a walk over all edges needs another bound: it
keeps a stack of what to look at next and a list of what it has not seen.
Whatever it meets for the first time leaves that list, so the walk ends.
`visits` gives what it meets in the order of meeting.
-/
import NativeTypes.Assoc
import NativeTypes.Instance.Basic

namespace NativeTypes

/-- Instances, each at its handle. -/
structure Graph where
  instances : Array Instance := #[]

/-- Identifiers given to instances. -/
abbrev NameTable := Assoc Handle String

/-- A change that an instance refuses. -/
inductive ChangeFault
  /-- The attribute of a finalized instance is assigned. -/
  | frozen (slot label : String)
  /-- There is nothing to change: parts of a finalized aggregate, or an attribute that is
  computed. -/
  | unchangeable
  deriving DecidableEq, Repr

/-- The words for a refused change. -/
def ChangeFault.message : ChangeFault → Option String
  | frozen slot label =>
    some ("cannot assign to " ++ Text.quoted slot ++ " of finalized " ++ label)
  | unchangeable => none

/-- A new value for an attribute. -/
inductive Assignment
  | name (value : String)
  | scope (value : String)
  | size (value : Option Int)
  | isUnion (value : Bool)
  | baseName (value : String)
  | arguments (value : List TemplateArgument)
  | bases (value : List BasePart)
  | fields (value : List FieldPart)
  /-- A kind that is none. -/
  | kind
  /-- Any other attribute: one that is computed, or one that nothing reads. -/
  | other (slot : String)

namespace Assignment

/-- The name of the attribute. -/
def slot : Assignment → String
  | name _ => "name"
  | scope _ => "namespace"
  | size _ => "size_bytes"
  | isUnion _ => "is_union"
  | baseName _ => "base_name"
  | arguments _ => "arguments"
  | bases _ => "base_types"
  | fields _ => "fields"
  | kind => "kind"
  | other slot => slot

/-- The aggregate with the new value. -/
def apply (a : Aggregate) : Assignment → Aggregate
  | name value => { a with name := value }
  | scope value => { a with scope := value }
  | size value => { a with size := value }
  | isUnion value => { a with isUnion := value }
  | baseName value => { a with template := a.template.map fun t => { t with baseName := value } }
  | arguments value => { a with template := a.template.map fun t => { t with arguments := value } }
  | bases value => { a with bases := value }
  | fields value => { a with fields := value }
  | kind => { a with kindLost := true }
  | other _ => a

end Assignment

/-- The attributes of an aggregate that are computed from the others. -/
def Aggregate.computedSlots (a : Aggregate) : List String :=
  ["size", "display_name", "qualified_name", "is_finalized"] ++
    if a.template.isSome then ["type_arguments"] else []

/-- The attribute of an instance is computed from the others. -/
def Instance.computes : Instance → String → Bool
  | aggregate a, slot => a.computedSlots.contains slot
  | _, _ => false

namespace Graph

/-! ## 1. Instances -/

/-- How many instances there are; their handles are the numbers below. -/
def count (g : Graph) : Nat := g.instances.size

/-- Every handle in order. -/
def handles (g : Graph) : List Handle := List.range g.count

/-- The instance at a handle. -/
def get (g : Graph) (h : Handle) : Instance := g.instances.getD h (.undefined "")

/-- The graph with one more instance, at the handle `g.count`. -/
def push (g : Graph) (i : Instance) : Graph := ⟨g.instances.push i⟩

/-- The graph with another instance at a handle. -/
def set (g : Graph) (h : Handle) (i : Instance) : Graph := ⟨g.instances.setIfInBounds h i⟩

/-! ## 2. Changing an aggregate -/

/-- The graph with an aggregate changed, unless it is complete or no aggregate. -/
def change (g : Graph) (h : Handle) (f : Aggregate → Aggregate) : Except ChangeFault Graph :=
  match g.get h with
  | .aggregate a =>
    if a.stage = .complete then .error .unchangeable else .ok (g.set h (.aggregate (f a)))
  | _ => .error .unchangeable

/-- One more base. -/
def addBase (g : Graph) (h : Handle) (b : BasePart) : Except ChangeFault Graph :=
  g.change h fun a => { a with bases := a.bases ++ [b] }

/-- One more field. -/
def addField (g : Graph) (h : Handle) (f : FieldPart) : Except ChangeFault Graph :=
  g.change h fun a => { a with fields := a.fields ++ [f] }

/-- A new value for an attribute. -/
def assign (g : Graph) (h : Handle) (v : Assignment) : Except ChangeFault Graph :=
  if (g.get h).isFinalized then .error (.frozen v.slot (g.get h).label)
  else if (g.get h).computes v.slot then .error .unchangeable
  else g.change h v.apply

/-- From now on the instance takes no changes. One whose attributes are fixed already stays
as it is. -/
def finalize (g : Graph) (h : Handle) : Graph :=
  match g.get h with
  | .aggregate a =>
    if a.isFinalized then g else g.set h (.aggregate { a with stage := .complete })
  | _ => g

/-- Fixes the attributes and leaves the parts open, under the name of the attribute that says
so. -/
def fix (g : Graph) (h : Handle) (slot : String) : Except ChangeFault Graph :=
  if (g.get h).isFinalized then .error (.frozen slot (g.get h).label)
  else g.change h fun a => { a with stage := .fixed }

/-! ## 3. What follows from the parts -/

/-- The size in bytes, if it is known. -/
def byteSize (g : Graph) (h : Handle) : Option Int :=
  match g.get h with
  | .primitive kind => some kind.size
  | .pointer _ size => some size
  | .array _ none => none
  | .array element (some n) =>
    if element < h then (g.byteSize element).map (· * n) else none
  | .enumeration e => if e.underlying < h then g.byteSize e.underlying else none
  | .aggregate a => a.size
  | .function _ | .undefined _ => none
termination_by h

/-- The native name that messages show. -/
def displayName (g : Graph) (h : Handle) : String :=
  match g.get h with
  | .primitive kind => kind.token
  | .pointer target _ => (if target < h then g.displayName target else "") ++ "*"
  | .array element length =>
    (if element < h then g.displayName element else "") ++
      "[" ++ (length.map toString).getD "" ++ "]"
  | .enumeration e => e.qualifiedName
  | .function f =>
    let result := if f.result < h then g.displayName f.result else ""
    let parameters := f.parameters.map fun p => if p < h then g.displayName p else ""
    let all := if f.variadic then parameters ++ ["..."] else parameters
    let label := match f.name with
      | some name => if name.isEmpty then "(*)" else name
      | none => "(*)"
    result ++ " " ++ label ++ "(" ++ ", ".intercalate all ++ ")"
  | .aggregate a => a.qualifiedName
  | .undefined name => name
termination_by h

/-- An instance as messages show it. -/
def shown (g : Graph) (h : Handle) : String :=
  "<" ++ (g.get h).label ++ " " ++ g.displayName h ++ ">"

/-- What stands for a type that has no declaration. -/
def opaqueMarker : String := "Variable"

/-- What stands for a function type that has no declaration. -/
def functionMarker : String := "CodeFunction"

/-- A declared type by its identifier; without a table of names, by its native name. -/
def namedReference (names : Option NameTable) (h : Handle) (native : String) : String :=
  match names with
  | none => native
  | some table => (table.get? h).getD opaqueMarker

/-- A reference to a type in terms of the runtime. -/
def typeReference (g : Graph) (truncate : Bool) (names : Option NameTable) (h : Handle) : String :=
  match g.get h with
  | .primitive kind => kind.token
  | .pointer target _ =>
    "Pointer[" ++ (if target < h then g.typeReference truncate names target else "") ++ "]"
  | .array element length =>
    "Array[" ++ (if element < h then g.typeReference truncate names element else "") ++ ", " ++
      (length.map toString).getD "None" ++ "]"
  | .enumeration e => namedReference names h (if truncate then e.name else e.qualifiedName)
  | .function _ => (names.bind fun table => table.get? h).getD functionMarker
  | .aggregate a => namedReference names h (if truncate then a.name else a.qualifiedName)
  | .undefined _ => opaqueMarker
termination_by h

end Graph

variable {α : Type} [DecidableEq α]

/-- Depth first: the top of the stack is met if it is among the `unseen`, and what `next`
gives for it goes on top of the stack. -/
def visits (next : α → List α) (unseen stack : List α) : List α :=
  match stack with
  | [] => []
  | v :: rest =>
    if v ∈ unseen then v :: visits next (unseen.erase v) (next v ++ rest)
    else visits next unseen rest
termination_by (unseen.length, stack.length)
decreasing_by
  · rename_i h
    have := List.length_erase_of_mem h
    have := List.length_pos_of_mem h
    simp_wf
    left
    omega
  · simp_wf
    right
    omega

namespace Graph

/-- The parts embedded by value, the last one first. -/
def valueStack (g : Graph) (h : Handle) : List Handle := (g.get h).valueParts.reverse

/-- The instance is undefined or embeds an undefined one by value, at any depth. Pointer
targets, signatures and template arguments do not count: a pointer to an undefined type is
still a usable pointer. -/
def containsUndefined (g : Graph) (h : Handle) : Bool :=
  (visits g.valueStack g.handles [h]).any fun v => (g.get v).isUndefined

/-- The first instance with property `p` that a walk from `h` meets below `h` by value. -/
def embedded? (g : Graph) (p : Handle → Bool) (h : Handle) : Option Handle :=
  (visits g.valueStack (g.handles.erase h) (g.valueStack h)).find? p

end Graph

end NativeTypes
