/-
NativeTypes.Resolver.Declare — references become instances.

A name is read and rebuilt first: its base is declared by its canonical
spelling and wrapped by its suffixes. Only canonical names and ids reach the
source. An instance is found again by its key; aggregates are made empty
and put on the worklist.

Declaring follows the references of pointers, arrays, typedefs, enumerations,
signatures and template arguments. `declare task n` follows at most `n` of
them below each other.
-/
import NativeTypes.Resolver.State

namespace NativeTypes.Resolver

variable {σ : Type} (task : Task σ)

/-! ## 1. Unnamed types -/

/-- A scalar. -/
def primitive (kind : Primitive) : Run σ Handle := ensure task (.primitive kind) (.primitive kind)

/-- A pointer; without a size of its own it has that of the module. -/
def pointer (target : Handle) (size : Option Int) : Run σ Handle := do
  let key := Key.pointer (← keyOf target)
  match (← get).registry.get? key with
  | some h => return h
  | none =>
    let size ← match size with
      | some n => if n = 0 then pointerSize task else pure n
      | none => pointerSize task
    register task key (.pointer target size)

/-- An array; its length must be one that can be written. -/
def array (element : Handle) (length : Option Int) : Run σ Handle := do
  let key ← keyOf element
  needWritable (length.all Text.isWritable)
  ensure task (.array key length) (.array element length)

/-- A type wrapped by a suffix. -/
def applySuffix (h : Handle) : Suffix → Run σ Handle
  | .array length => array task h length
  | .pointer | .reference => pointer task h none

/-- A type wrapped by suffixes, the first one innermost. -/
def applySuffixes (h : Handle) : List Suffix → Run σ Handle
  | [] => pure h
  | s :: ss => do applySuffixes (← applySuffix task h s) ss

/-! ## 2. Shapes, given how references are declared -/

section
variable (declare : Ref → Run σ Handle)

/-- References one after the other. -/
def declareAll : List Ref → Run σ (List Handle)
  | [] => pure []
  | r :: rs => do
    let h ← declare r
    return h :: (← declareAll rs)

/-- The keys of instances. -/
def keysOf : List Handle → Run σ (List Key)
  | [] => pure []
  | h :: hs => do
    let key ← keyOf h
    return key :: (← keysOf hs)

/-- Runs with a typedef open, which is closed however the run ends. -/
def withOpenAlias {α : Type} (label : String) (run : Run σ α) : Run σ α := fun s =>
  let close (s : State σ) := { s with openAliases := s.openAliases.erase label }
  match run { s with openAliases := label :: s.openAliases } with
  | .ok a s => .ok a (close s)
  | .error e s => .error e (close s)

/-- A typedef stands for its target, which takes its name as one more key. -/
def declareAlias (label : String) (shape : Shape) : Run σ Handle := do
  match shape.target with
  | none =>
    undefined task (if shape.name.isEmpty then label else shape.name) "typedef without target type"
  | some target =>
    if (← get).openAliases.contains label then
      undefined task label "typedef chain refers to itself"
    else
      let h ← withOpenAlias label (declare target)
      if !shape.name.isEmpty then addAlias task (← namedKey shape.name) h
      return h

/-- The members of an enumeration without those whose names occurred before, which are
reported. -/
def distinctMembers (owner : String) (seen : List String) :
    List (String × Int) → Run σ (List (String × Int))
  | [] => pure []
  | (name, value) :: rest => do
    if seen.contains name then
      report ⟨.duplicateMember, .warning, task.module, owner,
        "duplicate enumerator " ++ Text.quoted name ++ " dropped"⟩
      distinctMembers owner seen rest
    else
      return (name, value) :: (← distinctMembers owner (name :: seen) rest)

/-- The scalar under an enumeration that names none: the signed integer of its size, or of
four bytes. -/
def defaultUnderlying : Option Int → Primitive
  | some 1 => .int8
  | some 2 => .int16
  | some 8 => .int64
  | _ => .int32

/-- An enumeration. -/
def declareEnumeration (shape : Shape) : Run σ Handle := do
  let name ← nameOf shape
  let key ← namedKey name
  match (← get).registry.get? key with
  | some h => return h
  | none =>
    let underlying ← match shape.underlying with
      | some ref => declare ref
      | none => primitive task (defaultUnderlying shape.size)
    let members ← distinctMembers task name [] shape.members
    let (scope, short) := splitName name
    register task key (.enumeration { name := short, scope, underlying, members })

/-- A function type. -/
def declareFunction (shape : Shape) : Run σ Handle := do
  let result ← match shape.result with
    | some ref => declare ref
    | none => primitive task .void
  let parameters ← declareAll declare shape.parameters
  let key := Key.function (← keyOf result) (← keysOf parameters) shape.variadic
  let name := if shape.name.isEmpty then none else some shape.name
  ensure task key (.function { result, parameters, variadic := shape.variadic, name })

/-- Template arguments: the types among them are declared. -/
def declareArguments : List Argument → Run σ (List TemplateArgument)
  | [] => pure []
  | .number n :: rest => return .number n :: (← declareArguments rest)
  | .type t :: rest => do
    needWritable t.isWritable
    let h ← declare (.name t.format)
    return .type h :: (← declareArguments rest)

/-- The keys of template arguments. -/
def argumentKeys : List TemplateArgument → Run σ (List KeyArgument)
  | [] => pure []
  | .number n :: rest => return .number n :: (← argumentKeys rest)
  | .type h :: rest => do
    let key ← keyOf h
    return .key key :: (← argumentKeys rest)

/-- An empty aggregate, put on the worklist with its shape. -/
def place (key : Key) (a : Aggregate) (shape : Shape) : Run σ Handle := do
  let h ← register task key (.aggregate a)
  modify fun s =>
    { s with placed := s.placed.put h shape, placeholders := s.placeholders ++ [h],
             worklist := s.worklist ++ [h] }
  return h

/-- The instance of a key, or an empty aggregate under it. -/
def placeNew (key : Key) (a : Aggregate) (shape : Shape) : Run σ Handle := do
  match (← get).registry.get? key with
  | some h => return h
  | none => place task key a shape

/-- A struct or union. One whose name carries template arguments is known by the keys of
these. -/
def declareAggregate (shape : Shape) : Run σ Handle := do
  let name ← nameOf shape
  let isUnion := shape.kind = .union
  match (TypeName.parsePlain? name).filter TypeName.isTemplate with
  | some t =>
    let arguments ← declareArguments declare t.arguments
    let keys ← argumentKeys arguments
    needWritable t.isWritable
    placeNew task (.mk t.baseName keys)
      { name := t.shortName, scope := t.scopePath, size := shape.size, isUnion,
        template := some { baseName := t.base.last.name, arguments } } shape
  | none =>
    let (scope, short) := splitName name
    placeNew task (← namedKey name) { name := short, scope, size := shape.size, isUnion } shape

/-- The instance that a shape describes; `label` stands for a name it may lack. -/
def declareShape (label : String) : Option Shape → Run σ Handle
  | none => undefined task label "symbol provider does not know this type"
  | some shape =>
    match shape.kind with
    | .primitive => primitive task (shape.primitive.getD .void)
    | .pointer => do
      match shape.target with
      | none => pointer task (← primitive task .void) shape.size
      | some target => pointer task (← declare target) shape.size
    | .array => do
      match shape.target with
      | none => undefined task label "array shape without element type"
      | some target => array task (← declare target) shape.length
    | .typedef => declareAlias task declare label shape
    | .enumeration => declareEnumeration task declare shape
    | .function => declareFunction task declare shape
    | .struct | .union => declareAggregate task declare shape
    | .unsupported =>
      undefined task (if shape.name.isEmpty then label else shape.name)
        ("unsupported type kind " ++ shape.kind.word)

/-- What the source says about a reference. -/
def declareDescribed (label : String) (ref : Ref) : Run σ Handle := do
  let shape ← query task ref
  declareShape task declare label shape

/-- A name: its canonical spelling is described by the source, all else is built from it. -/
def declareName (text : String) : Run σ Handle := do
  match TypeName.parse text with
  | .error e => undefined task (String.ofList (Text.trim text.toList)) e.message
  | .ok t =>
    needWritable t.withoutSuffixes.isWritable
    if !t.suffixes.isEmpty then
      let h ← declare (.name t.withoutSuffixes.format)
      applySuffixes task h t.wrapping
    else if t.format ≠ text then declare (.name t.format)
    else declareDescribed task declare text (.name text)

/-- A reference that was not declared before. -/
def declareNew : Ref → Run σ Handle
  | .name text => declareName task declare text
  | .id n => declareDescribed task declare ("#" ++ String.ofList (Text.hexInt n)) (.id n)

/-- A reference; its instance is remembered. -/
def declareOnce (ref : Ref) : Run σ Handle := do
  match (← get).declared.get? ref with
  | some h => return h
  | none =>
    let h ← declareNew task declare ref
    modify fun s => { s with declared := s.declared.put ref h }
    return h

end

/-- The instance of a reference, following at most `n` references below each other. -/
def declare : Nat → Ref → Run σ Handle
  | 0, _ => throw .tooDeep
  | n + 1, ref => declareOnce task (declare n) ref

end NativeTypes.Resolver
