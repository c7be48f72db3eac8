/-
NativeTypes.Dwarf.Entry — the entries of debug information.

Entries form trees. Each has an offset, by which others refer to it, a tag
that says what it describes, attributes, and the entries below it. An
attribute is an integer, a flag, octets, a text or a block of octets; what
is read as an integer must be one, and a flag is not.
-/
import NativeTypes.Assoc
import NativeTypes.Text.Literal
import NativeTypes.Text.Utf8

namespace NativeTypes.Dwarf

/-! ## 1. Tags and attributes -/

/-- What an entry describes. -/
inductive Tag
  | baseType
  | pointerType
  | referenceType
  | rvalueReferenceType
  | constType
  | volatileType
  | restrictType
  | atomicType
  | typedef
  | arrayType
  | subrangeType
  | enumerationType
  | enumerator
  | subroutineType
  | formalParameter
  | unspecifiedParameters
  | structureType
  | classType
  | unionType
  | inheritance
  | member
  | scope
  /-- Something that is not looked into. -/
  | other (word : String)
  deriving DecidableEq, Repr

namespace Tag

/-- The tags that have a meaning here, each with its word. -/
def known : List (String × Tag) :=
  [("base_type", baseType), ("pointer_type", pointerType), ("reference_type", referenceType),
   ("rvalue_reference_type", rvalueReferenceType), ("const_type", constType),
   ("volatile_type", volatileType), ("restrict_type", restrictType), ("atomic_type", atomicType),
   ("typedef", typedef), ("array_type", arrayType), ("subrange_type", subrangeType),
   ("enumeration_type", enumerationType), ("enumerator", enumerator),
   ("subroutine_type", subroutineType), ("formal_parameter", formalParameter),
   ("unspecified_parameters", unspecifiedParameters), ("structure_type", structureType),
   ("class_type", classType), ("union_type", unionType), ("inheritance", inheritance),
   ("member", member), ("namespace", scope)]

/-- The tag that a word stands for. -/
def ofWord (w : String) : Tag := (known.lookup w).getD (other w)

/-- The word for a tag. -/
def word (t : Tag) : String :=
  match t with
  | other w => w
  | t => ((known.find? fun k => k.2 = t).map Prod.fst).getD ""

/-- The full name of a tag. -/
def fullName (t : Tag) : String := "DW_TAG_" ++ t.word

/-- Structures, classes and unions. -/
def isAggregate (t : Tag) : Bool := t = structureType || t = classType || t = unionType

/-- Pointers and references. -/
def isPointer (t : Tag) : Bool :=
  t = pointerType || t = referenceType || t = rvalueReferenceType

/-- Qualifiers, which change nothing about a type here. -/
def isQualifier (t : Tag) : Bool :=
  t = constType || t = volatileType || t = restrictType || t = atomicType

/-- Entries that are found by their names. -/
def isIndexed (t : Tag) : Bool :=
  t.isAggregate || t = enumerationType || t = typedef || t = baseType

/-- Entries that are listed as types of a module. -/
def isListed (t : Tag) : Bool := t.isAggregate || t = enumerationType

end Tag

/-- The attributes that are read. -/
inductive Attribute
  | name
  | type
  | byteSize
  | encoding
  | declaration
  | outside
  | location
  | dataBitOffset
  | bitOffset
  | bitSize
  | count
  | upperBound
  | constValue
  deriving DecidableEq, Repr

/-- The attribute that a word stands for. -/
def Attribute.ofWord? (w : String) : Option Attribute :=
  [("name", name), ("type", type), ("byte_size", byteSize), ("encoding", encoding),
   ("declaration", declaration), ("external", outside), ("data_member_location", location),
   ("data_bit_offset", dataBitOffset), ("bit_offset", bitOffset), ("bit_size", bitSize),
   ("count", count), ("upper_bound", upperBound), ("const_value", constValue)].lookup w

/-- The value of an attribute. -/
inductive Value
  | integer (n : Int)
  | flag (b : Bool)
  | octets (bs : List Nat)
  | text (s : String)
  | block (bs : List Int)
  deriving DecidableEq, Repr

/-- An entry with the entries below it. -/
inductive Entry
  | mk (offset : Int) (tag : Tag) (attributes : Assoc Attribute Value) (children : List Entry)
  deriving Repr

instance : Inhabited Entry := ⟨.mk 0 (.other "") [] []⟩

/-! ## 2. Location expressions -/

/-- An unsigned number in groups of seven bits, the low ones first, with what follows it. -/
def unsigned? : List Int → Option (Int × List Int)
  | [] => none
  | b :: bs =>
    if b < 128 then some (b, bs)
    else (unsigned? bs).map fun (n, rest) => (b - 128 + 128 * n, rest)

/-- A signed number in groups of seven bits: the highest group carries the sign. -/
def signed? : List Int → Option (Int × List Int)
  | [] => none
  | b :: bs =>
    if b < 128 then some (if b < 64 then b else b - 128, bs)
    else (signed? bs).map fun (n, rest) => (b - 128 + 128 * n, rest)

/-- The constant that an expression stands for, when it is a single operation with a constant
operand. -/
def constantOf? : List Int → Option Int
  | op :: bs =>
    let operand :=
      if op = 0x23 || op = 0x10 then unsigned? bs
      else if op = 0x11 then signed? bs
      else none
    match operand with
    | some (n, []) => some n
    | _ => none
  | [] => none

/-! ## 3. What an entry says -/

namespace Value

/-- The value as a text. -/
def asText : Value → String
  | integer n => toString n
  | flag b => Text.truthText b
  | octets bs => Text.Utf8.decode bs
  | text s => s
  | block bs => "[" ++ ", ".intercalate (bs.map toString) ++ "]"

/-- The value counts as true. -/
def isTruthy : Value → Bool
  | integer n => n ≠ 0
  | flag b => b
  | octets bs => !bs.isEmpty
  | text s => !s.isEmpty
  | block bs => !bs.isEmpty

/-- The value as an integer. -/
def integer? : Value → Option Int
  | integer n => some n
  | _ => none

/-- The value is a truth value. -/
def isFlag : Value → Bool
  | flag _ => true
  | _ => false

/-- The value as a place in an aggregate: a truth value counts as one or zero. -/
def place? : Value → Option Int
  | integer n => some n
  | flag b => some (if b then 1 else 0)
  | octets bs => constantOf? (bs.map Int.ofNat)
  | block bs => constantOf? bs
  | text _ => none

end Value

namespace Entry

/-- The place of an entry, by which others refer to it. -/
def offset : Entry → Int
  | mk offset _ _ _ => offset

/-- What the entry describes. -/
def tag : Entry → Tag
  | mk _ tag _ _ => tag

/-- The attributes of an entry. -/
def attributes : Entry → Assoc Attribute Value
  | mk _ _ attributes _ => attributes

/-- The entries below. -/
def children : Entry → List Entry
  | mk _ _ _ children => children

/-- The value of an attribute. -/
def value? (e : Entry) (a : Attribute) : Option Value := e.attributes.get? a

/-- An attribute that is an integer. -/
def int? (e : Entry) (a : Attribute) : Option Int := (e.value? a).bind Value.integer?

/-- An attribute that counts as true. -/
def has (e : Entry) (a : Attribute) : Bool := (e.value? a).any Value.isTruthy

/-- The name of an entry, empty if it has none. -/
def name (e : Entry) : String := ((e.value? .name).map Value.asText).getD ""

/-- The entry only declares what another one defines. -/
def isDeclaration (e : Entry) : Bool := e.has .declaration

/-- The constant place of a member or base. -/
def place? (e : Entry) : Option Int := (e.value? .location).bind Value.place?

/-- The place of a member or base is given as a truth value. -/
def placeIsTruth (e : Entry) : Bool := (e.value? .location).any Value.isFlag

/-- How much an entry tells: definitions before declarations, then those with a size, then
those with entries below. -/
def score (e : Entry) : Int :=
  (if e.isDeclaration then -5 else 5) + (if (e.value? .byteSize).isSome then 2 else 0) +
    (if e.children.isEmpty then 0 else 1)

mutual
/-- The entry at an offset, in the tree of an entry. -/
def find? (offset : Int) : Entry → Option Entry
  | mk own tag attributes children =>
    if own = offset then some (mk own tag attributes children) else findIn? offset children

/-- The entry at an offset, in the trees of entries. -/
def findIn? (offset : Int) : List Entry → Option Entry
  | [] => none
  | e :: es =>
    match find? offset e with
    | some found => some found
    | none => findIn? offset es
end

end Entry

end NativeTypes.Dwarf
