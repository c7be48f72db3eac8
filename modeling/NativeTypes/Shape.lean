/-
NativeTypes.Shape — what a source of debug information says about one type.

A shape is a flat record; its kind says which of its parts are read:

    primitive       primitive
    pointer         target, size
    array           target, length
    enumeration     underlying, members, size
    function        result, parameters, variadic
    struct, union   size, bases, fields
    typedef         target

Types are referred to by name or by an id that the source gives.
-/
import NativeTypes.Primitive

namespace NativeTypes

/-- A reference to a type. -/
inductive Ref
  | name (text : String)
  | id (value : Int)
  deriving DecidableEq, Repr

namespace Ref

/-- A reference as it stands in a list of details. -/
def text : Ref → String
  | name text => text
  | id value => toString value

/-- A reference as it stands in a sentence: names are quoted. -/
def shown : Ref → String
  | name text => Text.quoted text
  | id value => toString value

end Ref

/-- The kinds of shapes. -/
inductive ShapeKind
  | primitive
  | pointer
  | array
  | enumeration
  | function
  | struct
  | union
  | typedef
  | unsupported
  deriving DecidableEq, Repr

namespace ShapeKind

/-- Every kind. -/
def all : List ShapeKind :=
  [primitive, pointer, array, enumeration, function, struct, union, typedef, unsupported]

/-- The word for a kind. -/
def word : ShapeKind → String
  | primitive => "primitive"
  | pointer => "pointer"
  | array => "array"
  | enumeration => "enum"
  | function => "function"
  | struct => "struct"
  | union => "union"
  | typedef => "alias"
  | unsupported => "unsupported"

/-- The kind that a word stands for. -/
def ofWord? (w : String) : Option ShapeKind := all.find? fun kind => kind.word = w

end ShapeKind

/-- A field as described: where it lies, and the bits it takes when it is a bit-field. -/
structure FieldShape where
  name : String
  type : Ref
  offset : Int
  bitOffset : Option Int
  bitWidth : Option Int
  /-- The offset was given as a truth value, which counts as one or zero. -/
  isTruth : Bool := false
  deriving DecidableEq, Repr

/-- A base class as described. -/
structure BaseShape where
  type : Ref
  offset : Int
  /-- The offset was given as a truth value, which counts as one or zero. -/
  isTruth : Bool := false
  deriving DecidableEq, Repr

/-- The description of one type. -/
structure Shape where
  kind : ShapeKind
  name : String := ""
  size : Option Int := none
  primitive : Option Primitive := none
  target : Option Ref := none
  length : Option Int := none
  underlying : Option Ref := none
  members : List (String × Int) := []
  fields : List FieldShape := []
  bases : List BaseShape := []
  result : Option Ref := none
  parameters : List Ref := []
  variadic : Bool := false
  typeId : Option Int := none
  deriving DecidableEq, Repr

namespace Shape

/-- Structs and unions. -/
def isAggregate (s : Shape) : Bool := s.kind = .struct || s.kind = .union

/-- What the made-up names of types without name begin with. -/
def anonymousMark : String := "<anonymous"

/-- The shape of a scalar. -/
def ofPrimitive (name : String) (kind : Primitive) : Shape :=
  { kind := .primitive, name := name, size := some kind.size, primitive := some kind }

/-- The shape of a pointer. -/
def ofPointer (target : Ref) (size : Int) : Shape :=
  { kind := .pointer, size := some size, target := some target }

/-- The shape of an array. -/
def ofArray (element : Ref) (length : Option Int) : Shape :=
  { kind := .array, target := some element, length := length }

/-- The shape of an enumeration. -/
def ofEnumeration (name : String) (underlying : Option Ref) (members : List (String × Int))
    (size : Option Int) : Shape :=
  { kind := .enumeration, name := name, size := size, underlying := underlying,
    members := members }

/-- The shape of a function. -/
def ofFunction (name : String) (result : Ref) (parameters : List Ref) (variadic : Bool) : Shape :=
  { kind := .function, name := name, result := some result, parameters := parameters,
    variadic := variadic }

/-- The shape of a struct or union. -/
def ofAggregate (name : String) (size : Option Int) (fields : List FieldShape)
    (bases : List BaseShape) (isUnion : Bool) : Shape :=
  { kind := if isUnion then .union else .struct, name := name, size := size, fields := fields,
    bases := bases }

/-- The shape of a typedef. -/
def ofAlias (name : String) (target : Ref) : Shape :=
  { kind := .typedef, name := name, target := some target }

/-- The shape of a type that is known but not described. -/
def ofUnsupported (name : String) : Shape := { kind := .unsupported, name := name }

end Shape

end NativeTypes
