/-
NativeTypes.Instance.Basic — type instances: the nodes of the type graph.

An instance is named by its handle, its place in the graph; two instances
are the same when their handles are. Pointers, arrays, enumerations and
functions are made once from parts that exist already. Aggregates start
empty, take their bases and fields one by one and are then finalized; they
alone can close a cycle.
-/
import NativeTypes.Primitive
import NativeTypes.Text.Literal

namespace NativeTypes

/-- The place of an instance in its graph. -/
abbrev Handle := Nat

/-- A base of an aggregate. -/
structure BasePart where
  type : Handle
  offset : Int
  /-- The offset is shown as a truth value. -/
  isTruth : Bool := false
  deriving DecidableEq, Repr

/-- A field of an aggregate; one with a width is a bit-field. -/
structure FieldPart where
  name : String
  type : Handle
  offset : Int
  bitOffset : Option Int := none
  bitWidth : Option Int := none
  /-- The offset is shown as a truth value. -/
  isTruth : Bool := false
  deriving DecidableEq, Repr

/-- An offset as it is shown. -/
def offsetText (isTruth : Bool) (offset : Int) : String :=
  if isTruth then Text.truthText (offset ≠ 0) else toString offset

/-- The offset of a base as it is shown. -/
def BasePart.place (b : BasePart) : String := offsetText b.isTruth b.offset

/-- The offset of a field as it is shown. -/
def FieldPart.place (f : FieldPart) : String := offsetText f.isTruth f.offset

/-- The field is a bit-field. -/
def FieldPart.isBitField (f : FieldPart) : Bool := f.bitWidth.isSome

/-- An argument of a template: a type or a number. -/
inductive TemplateArgument
  | type (handle : Handle)
  | number (value : Int)
  deriving DecidableEq, Repr

/-- What an aggregate was made from: a template and its arguments. -/
structure TemplateUse where
  baseName : String
  arguments : List TemplateArgument
  deriving DecidableEq, Repr

/-- How far an aggregate is settled. -/
inductive Stage
  /-- Attributes are assigned and parts added. -/
  | growing
  /-- Attributes are fixed, but parts are still added. -/
  | fixed
  /-- Nothing changes any more. -/
  | complete
  deriving DecidableEq, Repr

/-- A struct, class or union. -/
structure Aggregate where
  name : String
  scope : String := ""
  size : Option Int := none
  isUnion : Bool := false
  template : Option TemplateUse := none
  bases : List BasePart := []
  fields : List FieldPart := []
  stage : Stage := .growing
  /-- Its kind was overwritten by what is no kind. -/
  kindLost : Bool := false
  deriving DecidableEq, Repr

/-- An enumeration. -/
structure Enumeration where
  name : String
  scope : String := ""
  underlying : Handle
  members : List (String × Int)
  deriving DecidableEq, Repr

/-- A function type. -/
structure FunctionType where
  result : Handle
  parameters : List Handle
  variadic : Bool := false
  name : Option String := none
  deriving DecidableEq, Repr

/-- A type instance. -/
inductive Instance
  | primitive (kind : Primitive)
  | pointer (target : Handle) (size : Int)
  | array (element : Handle) (length : Option Int)
  | enumeration (e : Enumeration)
  | function (f : FunctionType)
  | aggregate (a : Aggregate)
  | undefined (name : String)
  deriving DecidableEq, Repr

/-- A name inside the scopes that enclose it. -/
def qualified (scope name : String) : String :=
  if scope.isEmpty then name else scope ++ "::" ++ name

/-- The attributes of an aggregate are fixed. -/
def Aggregate.isFinalized (a : Aggregate) : Bool := a.stage ≠ .growing

/-- The name of an aggregate with its scope. -/
def Aggregate.qualifiedName (a : Aggregate) : String := qualified a.scope a.name

/-- The name of an enumeration with its scope. -/
def Enumeration.qualifiedName (e : Enumeration) : String := qualified e.scope e.name

/-- The types among the arguments of a template. -/
def TemplateUse.types (t : TemplateUse) : List Handle :=
  t.arguments.filterMap fun
    | .type handle => some handle
    | .number _ => none

namespace Instance

/-- The word for the kind of an instance. -/
def kindWord : Instance → String
  | primitive _ => "primitive"
  | pointer .. => "pointer"
  | array .. => "array"
  | enumeration _ => "enum"
  | function _ => "function"
  | aggregate a => if a.template.isSome then "template" else "aggregate"
  | undefined _ => "undefined"

/-- The label that an instance is shown under. -/
def label : Instance → String
  | primitive _ => "Primitive"
  | pointer .. => "Pointer"
  | array .. => "Array"
  | enumeration _ => "EnumInstance"
  | function _ => "Function"
  | aggregate a => if a.template.isSome then "TemplateInstance" else "Aggregate"
  | undefined _ => "Undefined"

/-- Aggregates, enumerations and functions get declarations of their own. -/
def isNamed : Instance → Bool
  | aggregate a => !a.kindLost
  | enumeration _ | function _ => true
  | _ => false

/-- The name, without scopes, of an aggregate or enumeration. -/
def typeName? : Instance → Option String
  | aggregate a => some a.name
  | enumeration e => some e.name
  | _ => none

/-- The instance takes no more changes. -/
def isFinalized : Instance → Bool
  | aggregate a => a.isFinalized
  | _ => true

/-- The instance is the placeholder for a type that could not be described. -/
def isUndefined : Instance → Bool
  | undefined _ => true
  | _ => false

/-- The instances whose layout is part of this one. -/
def valueParts : Instance → List Handle
  | array element _ => [element]
  | enumeration e => [e.underlying]
  | aggregate a => a.bases.map BasePart.type ++ a.fields.map FieldPart.type
  | _ => []

/-- The instances that this one only refers to. -/
def referenceParts : Instance → List Handle
  | pointer target _ => [target]
  | function f => f.result :: f.parameters
  | aggregate a => (a.template.map TemplateUse.types).getD []
  | _ => []

/-- All parts with the flag that says whether they are embedded by value, in order. -/
def parts (i : Instance) : List (Handle × Bool) :=
  i.valueParts.map (·, true) ++ i.referenceParts.map (·, false)

end Instance

end NativeTypes
