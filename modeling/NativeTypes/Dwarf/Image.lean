/-
NativeTypes.Dwarf.Image — debug information as a source of shapes.

Types refer to each other by the offsets of their entries. The inner
dimensions of an array have no entries of their own; they take negative
offsets, which are kept from the moment the array is looked up. A
declaration stands for the definition of the same name, when there is one.
-/
import NativeTypes.Dwarf.BitField
import NativeTypes.Dwarf.Index
import NativeTypes.Source.Basic

namespace NativeTypes.Dwarf

/-- The debug information of one module. -/
structure Image where
  pointerSize : Int := 8
  littleEndian : Bool := true
  units : List Entry := []
  index : Index := {}

namespace Image

/-- The image of units, if they can be indexed. -/
def ofUnits? (pointerSize : Int) (littleEndian : Bool) (units : List Entry) : Option Image :=
  (Index.ofUnits? units).map fun index => ⟨pointerSize, littleEndian, units, index⟩

section
variable (image : Image)

/-! ## 1. Entries -/

/-- The entry at an offset. -/
def entry? (offset : Int) : Option Entry := Entry.findIn? offset image.units

/-- The entry of the type that an entry refers to. -/
def typeOf? (e : Entry) : Option Entry := (e.int? .type).bind image.entry?

/-- A reference to an entry; without one, to `void`. -/
def refTo (e : Option Entry) : Ref :=
  match e with
  | some e => .id e.offset
  | none => .name "void"

/-- A reference to the type that an entry refers to. -/
def typeRef (e : Entry) : Ref := refTo (image.typeOf? e)

/-- The qualified name of an entry, or its own. -/
def nameOf (e : Entry) : String :=
  match image.index.qualified.get? e.offset with
  | some name => if name.isEmpty then e.name else name
  | none => e.name

/-- The definition that a declaration stands for, or the entry itself. A declaration whose name
cannot be written stands for nothing. -/
def definitionOf? (e : Entry) : Option Entry :=
  let name := image.nameOf e
  if !e.isDeclaration || name.isEmpty then some e
  else
    (TypeName.nameKey? name).map fun key =>
      ((image.index.byName.get? key).filter fun d => d.tag = e.tag && !d.isDeclaration).getD e

/-- The size of a type, seen through typedefs and qualifiers; at most `n` of them. -/
def sizeWithin : Nat → Option Entry → Option Int
  | 0, _ => none
  | _, none => none
  | n + 1, some e =>
    match e.int? .byteSize with
    | some size => some size
    | none => if e.tag.isPointer then some image.pointerSize else sizeWithin n (image.typeOf? e)

mutual
/-- How many entries there are in the tree of an entry. -/
def countEntry : Entry → Nat
  | .mk _ _ _ children => countEntries children + 1

/-- How many entries there are in several trees. -/
def countEntries : List Entry → Nat
  | [] => 0
  | e :: es => countEntry e + countEntries es
end

/-- The size of a type. A chain longer than there are entries goes around and has no size. -/
def sizeOf? (e : Option Entry) : Option Int :=
  image.sizeWithin (countEntries image.units + 1) e

/-! ## 2. Shapes -/

/-- The scalar with this encoding and size. -/
def scalarOf? (encoding : Option Int) (size : Int) : Option Primitive :=
  let integer (signed : Bool) := (Primitive.integer size signed).toOption
  match encoding with
  | some 0x04 => if size = 4 then some .float32 else if size = 8 then some .float64 else none
  | some 0x02 => if size = 1 then some .bool else integer false
  | some 0x10 => if size = 1 then some .char else if size = 2 then some .wchar else integer false
  | some 0x05 | some 0x06 => integer true
  | some 0x07 | some 0x08 => integer false
  | _ => none

/-- The scalar a base type names, if its size is the same; else the one of its encoding. -/
def baseScalar? (e : Entry) : Except Primitive.Fault (Option Primitive) := do
  let size := (e.int? .byteSize).getD 0
  let named ← if e.name.isEmpty then pure none
    else Primitive.ofBuiltinName e.name image.pointerSize
  return (named.filter fun kind => size = 0 || kind.size = size).orElse fun _ =>
    scalarOf? (e.int? .encoding) size

/-- The shape of a base type. -/
def baseShape (e : Entry) : Except Primitive.Fault Shape :=
  (image.baseScalar? e).map fun
    | some kind => Shape.ofPrimitive e.name kind
    | none => Shape.ofUnsupported (if e.name.isEmpty then "base type" else e.name)

/-- The length that a dimension gives. -/
def lengthOf? (e : Entry) : Option Int :=
  match e.int? .count with
  | some n => some n
  | none => (e.int? .upperBound).map (· + 1)

/-- The lengths of an array, the outermost first; an array has at least one. -/
def lengths (e : Entry) : List (Option Int) :=
  match (e.children.filter fun c => c.tag = .subrangeType).map lengthOf? with
  | [] => [none]
  | ls => ls

/-- The id of an inner dimension of the array at an offset. -/
def dimensionId (offset : Int) (index : Nat) : Int := -(offset * 64 + index)

/-- The shapes of the inner dimensions from `index` on, each with its id, the outermost
first, and a reference to the outermost of them. -/
def inner (offset : Int) (element : Ref) : Nat → List (Option Int) → List (Int × Shape) × Ref
  | _, [] => ([], element)
  | index, l :: ls =>
    let (shapes, target) := inner offset element (index + 1) ls
    let id := dimensionId offset index
    ((id, { Shape.ofArray target l with typeId := some id }) :: shapes, .id id)

/-- The shape of an array and those of its inner dimensions. -/
def arrayShape (e : Entry) : Shape × List (Int × Shape) :=
  let ls := lengths e
  let (shapes, target) := inner e.offset (image.typeRef e) 1 (ls.drop 1)
  (Shape.ofArray target (ls.headD none), shapes)

/-- The shape of an enumeration; members without a value are left out. -/
def enumerationShape (e : Entry) : Shape :=
  Shape.ofEnumeration (image.nameOf e) ((image.typeOf? e).map fun t => .id t.offset)
    (e.children.filterMap fun c =>
      if c.tag = .enumerator then (c.int? .constValue).map fun v => (c.name, v) else none)
    (e.int? .byteSize)

/-- The shape of a function type. -/
def functionShape (e : Entry) : Shape :=
  Shape.ofFunction "" (image.typeRef e)
    ((e.children.filter fun c => c.tag = .formalParameter).map image.typeRef)
    (e.children.any fun c => c.tag = .unspecifiedParameters)

/-- The base that an entry describes; one without a constant place is left out. -/
def base? (e : Entry) : Option BaseShape :=
  if e.tag = .inheritance then
    e.place?.map fun offset => ⟨image.typeRef e, offset, e.placeIsTruth⟩
  else none

/-- A member that belongs to the type and not to its objects. -/
def isStatic (isUnion : Bool) (e : Entry) : Bool :=
  e.place?.isNone && (e.int? .dataBitOffset).isNone && !isUnion &&
    (e.has .outside || e.isDeclaration)

/-- The place of a bit-field member. -/
def bitFieldPlace (e : Entry) (bitSize : Int) : BitFieldPlace :=
  { bitSize, storageSize := image.sizeOf? (image.typeOf? e)
    dataBitOffset := e.int? .dataBitOffset, byteOffset := e.place?
    legacyBitOffset := e.int? .bitOffset, legacyByteSize := e.int? .byteSize
    littleEndian := image.littleEndian }

/-- The field that an entry describes. No place is the place zero, and so is a false one; a true
one stays a truth value unless the bits are counted from the start. -/
def field? (isUnion : Bool) (e : Entry) : Option FieldShape :=
  if e.tag ≠ .member || isStatic isUnion e then none
  else
    let isTruth := e.has .location && e.placeIsTruth
    match e.int? .bitSize with
    | none => some ⟨e.name, image.typeRef e, e.place?.getD 0, none, none, isTruth⟩
    | some bitSize =>
      let (byte, bit) := (image.bitFieldPlace e bitSize).normalize
      some ⟨e.name, image.typeRef e, byte, some bit, some bitSize,
        isTruth && (e.int? .dataBitOffset).isNone⟩

/-- The shape of a structure, class or union. -/
def aggregateShape (e : Entry) : Shape :=
  let isUnion := e.tag = .unionType
  Shape.ofAggregate (image.nameOf e) (e.int? .byteSize)
    (e.children.filterMap (image.field? isUnion)) (e.children.filterMap image.base?) isUnion

/-- The size that a pointer gives itself, or that of all pointers. -/
def ownPointerSize (e : Entry) : Int :=
  (BitFieldPlace.nonzero (e.int? .byteSize)).getD image.pointerSize

/-- The shape of an entry that is no aggregate and no array. -/
def plainShape (e : Entry) : Except Primitive.Fault Shape :=
  if e.tag = .baseType then image.baseShape e
  else if e.tag.isPointer then .ok (Shape.ofPointer (image.typeRef e) (image.ownPointerSize e))
  else if e.tag.isQualifier then .ok (Shape.ofAlias "" (image.typeRef e))
  else if e.tag = .typedef then .ok (Shape.ofAlias (image.nameOf e) (image.typeRef e))
  else if e.tag = .enumerationType then .ok (image.enumerationShape e)
  else if e.tag = .subroutineType then .ok (image.functionShape e)
  else
    let name := image.nameOf e
    .ok (Shape.ofUnsupported (if name.isEmpty then e.tag.fullName else name))

/-- The shape of an entry, with the shapes of inner dimensions that come with it. -/
def shapeOf (e : Entry) : Except Primitive.Fault (Shape × List (Int × Shape)) :=
  if e.tag.isAggregate then
    match image.definitionOf? e with
    | none => .error .tooManyDigits
    | some d =>
      if d.isDeclaration then .ok (Shape.ofUnsupported (image.nameOf d), [])
      else .ok ({ image.aggregateShape d with typeId := some d.offset }, [])
  else if e.tag = .arrayType then
    let (shape, dimensions) := image.arrayShape e
    .ok ({ shape with typeId := some e.offset }, dimensions)
  else (image.plainShape e).map fun shape => ({ shape with typeId := some e.offset }, [])

end

/-! ## 3. Look-ups -/

/-- The dimensions that were given ids. -/
abbrev Dimensions := Assoc Int Shape

/-- The dimensions with new ones. -/
def remember (known : Dimensions) (shapes : List (Int × Shape)) : Dimensions :=
  shapes.foldl (fun known s => known.put s.1 s.2) known

/-- A look-up of an entry. -/
def lookupEntry (image : Image) (known : Dimensions) (e : Entry) :
    Except Primitive.Fault (Option Shape) × Dimensions :=
  match image.shapeOf e with
  | .ok (shape, dimensions) => (.ok (some shape), remember known dimensions)
  | .error fault => (.error fault, known)

/-- A look-up. Negative ids are those of dimensions; names that no entry has may be built
in. -/
def lookup (image : Image) (known : Dimensions) :
    Ref → Except Primitive.Fault (Option Shape) × Dimensions
  | .id n =>
    if n < 0 then (.ok (known.get? n), known)
    else
      match image.entry? n with
      | some e => image.lookupEntry known e
      | none => (.ok none, known)
  | .name text =>
    match TypeName.nameKey? text with
    | none => (.error .tooManyDigits, known)
    | some key =>
      match image.index.byName.get? key with
      | some e => image.lookupEntry known e
      | none =>
        ((Primitive.ofBuiltinName text image.pointerSize).map fun kind =>
          kind.map (Shape.ofPrimitive text), known)

end Image

/-! ## 4. The source -/

/-- The images of modules; one that cannot be read fails every query. -/
structure Images where
  images : Assoc String (Except SourceFault Image) := []
  dimensions : Assoc String Image.Dimensions := []

namespace Images

/-- The image of a module that must be known. -/
def image (s : Images) (module : String) (query : Option Ref) : Except SourceFault Image :=
  match s.images.get? module with
  | some (.ok image) => .ok image
  | some (.error fault) => .error fault
  | none => .error (.unknownModule module query)

/-- A look-up in the image of a module. -/
def lookup (s : Images) (module : String) (ref : Ref) :
    Except SourceFault (Option Shape) × Images :=
  match s.image module (some ref) with
  | .error fault => (.error fault, s)
  | .ok image =>
    let (answer, known) := image.lookup ((s.dimensions.get? module).getD []) ref
    (answer.mapError .primitive, { s with dimensions := s.dimensions.put module known })

/-- The modules in order. -/
def modules (s : Images) : List String :=
  (s.images.map Prod.fst).mergeSort fun a b => a ≤ b

/-- Images as a source. -/
def source : Source Images where
  lookup := lookup
  typeNames s module := (s.image module none).map fun image => image.index.listed
  pointerSize s module := (s.image module none).map Image.pointerSize

end Images

end NativeTypes.Dwarf
