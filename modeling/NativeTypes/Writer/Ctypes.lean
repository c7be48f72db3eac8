/-
NativeTypes.Writer.Ctypes — packed structures with explicit padding.

Every structure is packed and carries its padding, so each member sits at
its native offset. Bases come first and are anonymous members; fields follow
by offset; bit-fields of one storage unit are written together, with fillers
for the gaps. What has no layout, or overlaps what stands before it, is left
out with a note. Enumerations, then structures without members, then
function types come before all member lists.
-/
import NativeTypes.Writer.Basic

namespace NativeTypes.Ctypes

/-! ## 1. Types -/

/-- An expression for a type. -/
inductive TypeExpression
  /-- A type that the library of generated code has. -/
  | given (text : String)
  /-- A declaration. -/
  | declared (identifier : String)
  | repeated (element : TypeExpression) (count : Int)
  | pointerTo (target : TypeExpression)
  deriving DecidableEq, Repr

namespace TypeExpression

/-- An expression as it is written. -/
def text : TypeExpression → String
  | given text => text
  | declared identifier => identifier
  | repeated element count => "(" ++ element.text ++ " * " ++ toString count ++ ")"
  | pointerTo target => "ctypes.POINTER(" ++ target.text ++ ")"

/-- The identifiers that an expression evaluates. -/
def uses : TypeExpression → List String
  | given _ => []
  | declared identifier => [identifier]
  | repeated element _ => element.uses
  | pointerTo target => target.uses

end TypeExpression

/-- The expression for a scalar. -/
def primitiveText : Primitive → String
  | .void => "None"
  | .bool => "ctypes.c_bool"
  | .char => "ctypes.c_char"
  | .wchar => "ctypes.c_uint16"
  | .int8 => "ctypes.c_int8"
  | .uint8 => "ctypes.c_uint8"
  | .int16 => "ctypes.c_int16"
  | .uint16 => "ctypes.c_uint16"
  | .int32 => "ctypes.c_int32"
  | .uint32 => "ctypes.c_uint32"
  | .int64 => "ctypes.c_int64"
  | .uint64 => "ctypes.c_uint64"
  | .int128 => "(ctypes.c_uint8 * 16)"
  | .uint128 => "(ctypes.c_uint8 * 16)"
  | .float32 => "ctypes.c_float"
  | .float64 => "ctypes.c_double"

/-- The expression for a pointer without a known target. -/
def anyPointer : TypeExpression := .given "ctypes.c_void_p"

/-- The type has a layout: there is an expression for it, and it is not that of no value. -/
def sized? (e : Option TypeExpression) : Option TypeExpression :=
  e.filter fun e => e.text ≠ "None"

/-- The expression for a type, if it has one. A function type stands for the pointer to it. -/
def typeOf? (g : Graph) (names : NameTable) (h : Handle) : Option TypeExpression :=
  match g.get h with
  | .primitive kind => some (.given (primitiveText kind))
  | .pointer target _ =>
    if target < h then
      match g.get target with
      | .function _ => some (((names.get? target).map .declared).getD anyPointer)
      | _ => some (((sized? (typeOf? g names target)).map .pointerTo).getD anyPointer)
    else some anyPointer
  | .array element length =>
    if element < h then
      (sized? (typeOf? g names element)).map fun e => .repeated e (length.getD 0)
    else none
  | .enumeration e =>
    match names.get? h with
    | some name => some (.declared name)
    | none => if e.underlying < h then typeOf? g names e.underlying else none
  | .aggregate _ | .function _ => (names.get? h).map .declared
  | .undefined _ => none
termination_by h

/-- Why a type cannot be referred to without a table of names. -/
def tableFault? (g : Graph) (h : Handle) : Option RenderFault :=
  match g.get h with
  | .primitive _ | .undefined _ => none
  | .pointer target _ =>
    match g.get target with
    | .function _ => some (.noTable false)
    | _ => if target < h then tableFault? g target else none
  | .array element _ => if element < h then tableFault? g element else none
  | .enumeration _ => some (.noTable true)
  | .aggregate _ | .function _ => some (.noTable false)
termination_by h

/-- The expression for a type, empty if it has none. -/
def reference (g : Graph) (names : Option NameTable) (h : Handle) : Except RenderFault String :=
  match names, tableFault? g h with
  | none, some fault => .error fault
  | _, _ => .ok (((typeOf? g (names.getD []) h).map TypeExpression.text).getD "")

/-- A type in a signature: arrays decay to pointers, an unknown type is any pointer. -/
def signatureType (g : Graph) (names : NameTable) (h : Handle) : TypeExpression :=
  match g.get h with
  | .array element _ => ((sized? (typeOf? g names element)).map .pointerTo).getD anyPointer
  | _ => (typeOf? g names h).getD anyPointer

/-! ## 2. Names of members -/

/-- The attributes of the library's types, which no member may shadow. -/
def dataAttributes : List String :=
  ["from_address", "from_buffer", "from_buffer_copy", "from_param", "in_dll", "_as_parameter_",
   "_b_base_", "_b_needsfree_", "_objects"]

/-- The attributes that an enumeration has besides. -/
def enumerationAttributes : List String := dataAttributes ++ ["value", "_type_"]

/-- The names of the members for bases, clear of `used` ones. -/
def baseNames (names : NameTable) (used : List String) : List BasePart → List String
  | [] => []
  | b :: bs =>
    let name := Naming.firstFree used ("base_" ++ (names.get? b.type).getD "base")
    name :: baseNames names (name :: used) bs

/-- What the members for fields stay clear of. -/
def reserved (names : NameTable) (a : Aggregate) : List String :=
  baseNames names [] a.bases ++ dataAttributes

/-- The names of the members for fields. -/
def fieldNames (names : NameTable) (a : Aggregate) : List String :=
  Naming.allocateMembers (a.fields.map FieldPart.name) (reserved names a)

/-! ## 3. Layout -/

/-- An entry of the list of members. `index` is the place of the base or field; a filler is one
of several in the storage unit that starts with the bit-field `first`. -/
inductive Entry
  | padding (name : String) (bytes : Int)
  | base (index : Nat) (name : String) (type : TypeExpression) (bytes : Int)
  | field (index : Nat) (name : String) (type : TypeExpression) (bytes : Int)
  | bits (index : Nat) (name storage : String) (width : Int)
  | filler (first : FieldPart) (number : Nat) (storage : String) (width : Int)
  deriving DecidableEq, Repr

namespace Entry

/-- The name of a filler in the unit at a place. -/
def fillerName (place : String) (number : Nat) : String :=
  "_bits" ++ place ++ "_" ++ toString number

/-- The name of a member. -/
def name : Entry → String
  | padding name _ | base _ name _ _ | field _ name _ _ | bits _ name _ _ => name
  | filler first number _ _ => fillerName first.place number

/-- The identifiers that an entry evaluates. -/
def uses : Entry → List String
  | base _ _ type _ | field _ _ type _ => type.uses
  | _ => []

/-- The numbers of an entry can be written; those of its type are lengths and always can. -/
def isWritable : Entry → Bool
  | padding _ n | bits _ _ _ n => Text.isWritable n
  | filler first _ _ n => Text.isWritable first.offset && Text.isWritable n
  | base .. | field .. => true

/-- An entry as it is written. -/
def text (e : Entry) : String :=
  "(" ++ Text.quoted e.name ++ ", " ++
    (match e with
      | padding _ bytes => "ctypes.c_uint8 * " ++ toString bytes
      | base _ _ type _ | field _ _ type _ => type.text
      | bits _ _ storage width | filler _ _ storage width =>
        storage ++ ", " ++ toString width) ++ ")"

end Entry

/-- Why a base or field has no entry. -/
inductive Note
  | baseKept (index : Nat) (name : String) (part : BasePart)
  | noLayout (index : Nat) (name : String)
  | unionOffset (index : Nat) (part : FieldPart)
  | overlap (index : Nat) (name : String)
  | bitsNoLayout (index : Nat) (name : String)
  | bitsOverlap (index : Nat) (name : String)
  deriving DecidableEq, Repr

namespace Note

/-- The numbers of a note can be written. -/
def isWritable : Note → Bool
  | baseKept _ _ part => Text.isWritable part.offset
  | unionOffset _ part => Text.isWritable part.offset
  | noLayout .. | overlap .. | bitsNoLayout .. | bitsOverlap .. => true

/-- The words of a note. -/
def text : Note → String
  | baseKept _ name part => "base " ++ name ++ " at offset " ++ part.place ++ " kept as padding"
  | noLayout _ name => "field " ++ Text.quoted name ++ " has no ctypes layout, kept as padding"
  | unionOffset _ part =>
    "union member " ++ Text.quoted part.name ++ " at offset " ++ part.place ++ ", skipped"
  | overlap _ name => "field " ++ Text.quoted name ++ " overlaps the previous member, skipped"
  | bitsNoLayout _ name => "bit-field " ++ Text.quoted name ++ " has no ctypes layout, skipped"
  | bitsOverlap _ name => "bit-field " ++ Text.quoted name ++ " overlaps, skipped"

end Note

/-- The members placed so far: entries and notes in order, the names of anonymous members,
where the next byte goes and how many paddings there are. -/
structure Placement where
  entries : List Entry := []
  anonymous : List String := []
  notes : List Note := []
  cursor : Int := 0
  pads : Nat := 0

namespace Placement

/-- One more entry. -/
def add (p : Placement) (e : Entry) : Placement := { p with entries := p.entries ++ [e] }

/-- One more note. -/
def note (p : Placement) (n : Note) : Placement := { p with notes := p.notes ++ [n] }

/-- All numbers of the entries and notes can be written. -/
def isWritable (p : Placement) : Bool :=
  p.entries.all Entry.isWritable && p.notes.all Note.isWritable

/-- The name of the padding with a number. -/
def padName (n : Nat) : String := "_pad" ++ toString n

/-- Padding up to an offset; a union has none. -/
def padTo (isUnion : Bool) (p : Placement) (offset : Int) : Placement :=
  if p.cursor < offset && !isUnion then
    { p.add (.padding (padName p.pads) (offset - p.cursor)) with
      pads := p.pads + 1, cursor := offset }
  else p

/-- The next byte goes to this offset. -/
def moveTo (p : Placement) (offset : Int) : Placement := { p with cursor := offset }

end Placement

section
variable (g : Graph) (names : NameTable) (isUnion : Bool)

/-- Places a base. -/
def placeBase (p : Placement) (index : Nat) (name : String) (b : BasePart) : Placement :=
  match typeOf? g names b.type, g.byteSize b.type with
  | some type, some size =>
    if b.offset < p.cursor then p.note (.baseKept index (g.displayName b.type) b)
    else
      let p := (p.padTo isUnion b.offset).add (.base index name type size)
      { p with anonymous := p.anonymous ++ [name], cursor := b.offset + size }
  | _, _ => p.note (.baseKept index (g.displayName b.type) b)

/-- Places bases from `index` on. -/
def placeBases (p : Placement) (index : Nat) : List (String × BasePart) → Placement
  | [] => p
  | (name, b) :: rest => placeBases (placeBase g names isUnion p index name b) (index + 1) rest

/-- A field with its place and the name of its member. -/
structure Member where
  index : Nat
  name : String
  field : FieldPart

/-- Members by offset; those of one offset keep their order. -/
def byOffset (ms : List Member) : List Member :=
  ms.mergeSort fun a b => a.field.offset ≤ b.field.offset

/-- The field belongs to the storage unit of a bit-field before it. -/
def sharesUnit (first m : Member) : Bool :=
  m.field.isBitField && m.field.offset = first.field.offset &&
    g.byteSize m.field.type = g.byteSize first.field.type

/-- The type of a storage unit of so many bytes. -/
def storageOf? (bytes : Int) : Option String :=
  if bytes = 1 then some "ctypes.c_uint8"
  else if bytes = 2 then some "ctypes.c_uint16"
  else if bytes = 4 then some "ctypes.c_uint32"
  else if bytes = 8 then some "ctypes.c_uint64"
  else none

/-- The size of the storage unit of a bit-field: that of its type, or one byte. -/
def unitOf (m : Member) : Int :=
  match g.byteSize m.field.type with
  | none => 1
  | some n => if n = 0 then 1 else n

/-- The bits of one unit placed so far. -/
structure Bits where
  placement : Placement
  bit : Int := 0
  fillers : Nat := 0

/-- Fills a unit up to a bit. -/
def Bits.fillTo (storage : String) (first : FieldPart) (b : Bits) (bit : Int) : Bits :=
  if b.bit < bit then
    { b with
      placement := b.placement.add (.filler first b.fillers storage (bit - b.bit))
      fillers := b.fillers + 1 }
  else b

/-- Places a bit-field in its unit. -/
def placeBit (storage : String) (first : FieldPart) (b : Bits) (m : Member) : Bits :=
  let start := m.field.bitOffset.getD 0
  let width := m.field.bitWidth.getD 0
  if start < b.bit then
    { b with placement := b.placement.note (.bitsOverlap m.index m.field.name) }
  else
    let b := b.fillTo storage first start
    { b with
      placement := b.placement.add (.bits m.index m.name storage width), bit := start + width }

/-- Places the bit-fields of one storage unit, by their bits. -/
def placeUnit (p : Placement) (first : Member) (group : List Member) : Placement :=
  let offset := first.field.offset
  let bytes := unitOf g first
  match storageOf? bytes with
  | none => group.foldl (fun p m => p.note (.bitsNoLayout m.index m.field.name)) p
  | some storage =>
    if offset < p.cursor && !isUnion then
      group.foldl (fun p m => p.note (.bitsNoLayout m.index m.field.name)) p
    else
      let sorted := group.mergeSort fun a b =>
        a.field.bitOffset.getD 0 ≤ b.field.bitOffset.getD 0
      let bits := sorted.foldl (placeBit storage first.field)
        { placement := p.padTo isUnion offset }
      (bits.fillTo storage first.field (bytes * 8)).placement.moveTo (offset + bytes)

/-- An array has a place even when its size is unknown. -/
def isArray (h : Handle) : Bool :=
  match g.get h with
  | .array .. => true
  | _ => false

/-- Places a field that is no bit-field. -/
def placeField (p : Placement) (m : Member) : Placement :=
  let f := m.field
  let size := g.byteSize f.type
  match typeOf? g names f.type with
  | none => p.note (.noLayout m.index f.name)
  | some type =>
    if size.isNone && !isArray g f.type then p.note (.noLayout m.index f.name)
    else if isUnion && f.offset != 0 then p.note (.unionOffset m.index f)
    else if f.offset < p.cursor && !isUnion then p.note (.overlap m.index f.name)
    else
      ((p.padTo isUnion f.offset).add (.field m.index m.name type (size.getD 0))).moveTo
        (f.offset + size.getD 0)

/-- Places fields that stand in the order of offsets. -/
def placeFields (p : Placement) : List Member → Placement
  | [] => p
  | m :: rest =>
    if m.field.isBitField then
      placeFields (placeUnit g isUnion p m (m :: rest.takeWhile (sharesUnit g m)))
        (rest.dropWhile (sharesUnit g m))
    else placeFields (placeField g names isUnion p m) rest
termination_by ms => ms.length
decreasing_by
  · have := (List.dropWhile_sublist (sharesUnit g m) (l := rest)).length_le
    simp only [List.length_cons]
    omega
  · simp

/-- The end of the members: a structure is padded to its size, an empty union is one padding. -/
def finish (size : Option Int) (p : Placement) : Placement :=
  match size with
  | none => p
  | some n =>
    if isUnion then
      if p.cursor = 0 && p.entries.isEmpty && n != 0 then
        p.add (.padding (Placement.padName 0) n)
      else p
    else p.padTo isUnion n

end

/-- The fields of an aggregate with the names of their members. -/
def membersOf (memberNames : List String) (a : Aggregate) : List Member :=
  a.fields.zipIdx.map fun (f, index) => ⟨index, memberNames.getD index "", f⟩

/-- The members of an aggregate, the fields under the given names. -/
def layoutAs (g : Graph) (names : NameTable) (memberNames : List String) (a : Aggregate) :
    Placement :=
  let p := placeBases g names a.isUnion {} 0 ((baseNames names [] a.bases).zip a.bases)
  finish a.isUnion a.size (placeFields g names a.isUnion p (byOffset (membersOf memberNames a)))

/-- The members of an aggregate. -/
def layout (g : Graph) (names : NameTable) (a : Aggregate) : Placement :=
  layoutAs g names (fieldNames names a) a

/-- A field that needs a name has none: a bit-field needs it where it is placed, any other
field always. -/
def lacksName (memberNames : List String) (a : Aggregate) (p : Placement) : Bool :=
  (a.fields.drop memberNames.length).any (fun f => !f.isBitField) ||
    p.entries.any fun
      | .bits index .. => memberNames.length ≤ index
      | _ => false

/-! ## 4. Declarations -/

/-- The structure of an aggregate, without its members. -/
def stubText (ident documentation : String) (a : Aggregate) : String :=
  let kind := if a.isUnion then "ctypes.Union" else "ctypes.Structure"
  (Emitter.block {} ("class " ++ ident ++ "(" ++ kind ++ "):") fun e =>
    ((e.emitDocstring documentation).emit "_layout_ = 'ms'").emit "_pack_ = 1").text

/-- The members of an aggregate. -/
def bodyText (ident : String) (p : Placement) : String :=
  let e : Emitter := p.notes.foldl (fun e n => e.emitComment (ident ++ ": " ++ n.text)) {}
  let e := if p.anonymous.isEmpty then e
    else e.emit (ident ++ "._anonymous_ = " ++ Text.quotedTuple p.anonymous)
  if p.entries.isEmpty then (e.emit (ident ++ "._fields_ = []")).text
  else
    ((e.block (ident ++ "._fields_ = [") fun e =>
      e.emitLines (p.entries.map fun entry => entry.text ++ ",")).emit "]").text

/-- The scalar that an enumeration is based on. -/
def enumerationBase (g : Graph) (names : NameTable) (e : Enumeration) : String :=
  let text := ((typeOf? g names e.underlying).map TypeExpression.text).getD ""
  if (Scanner.after? "ctypes.c_".toList text.toList).isSome then text else "ctypes.c_int32"

/-- The class of an enumeration. -/
def enumerationText (memberNames : List String) (ident documentation base : String)
    (e : Enumeration) : String :=
  (Emitter.block {} ("class " ++ ident ++ "(" ++ base ++ "):") fun out =>
    let out := out.emitDocstring documentation
    let out := if e.members.isEmpty then out else out.emitBlank 1
    out.emitLines ((memberNames.zip e.members).map fun (name, m) =>
      name ++ " = " ++ toString m.2)).text

/-- The types of a signature: the result, then the parameters. -/
def signature (g : Graph) (names : NameTable) (f : FunctionType) : List TypeExpression :=
  signatureType g names f.result :: f.parameters.map (signatureType g names)

/-- The prototype of a function type. -/
def functionText (ident displayName : String) (types : List TypeExpression) (f : FunctionType) :
    String :=
  let e : Emitter := {}
  let e := e.emit ("# " ++ displayName)
  let e := if f.variadic then
      e.emit "# variadic: ctypes prototypes cannot express the trailing '...'"
    else e
  (e.emit (ident ++ " = ctypes.CFUNCTYPE(" ++ ", ".intercalate (types.map TypeExpression.text) ++
    ")")).text

/-- The code of a declaration. -/
def declare (g : Graph) (names : NameTable) (members : MemberNames) (h : Handle) :
    Except RenderFault Fragment :=
  match g.get h with
  | .aggregate a => do
    let ident ← Writer.nameOf g names h
    let documentation ← Writer.describe g h
    let memberNames := members h (reserved names a)
    let p := layoutAs g names memberNames a
    Writer.needWritable p.isWritable
    if lacksName memberNames a p then throw .namelessMember
    return { handle := h, identifier := ident
             prelude := some
               { binds := some ident, text := stubText ident documentation a }
             body := some
               { uses := ident :: p.entries.flatMap Entry.uses, text := bodyText ident p } }
  | .enumeration e => do
    let ident ← Writer.nameOf g names h
    let documentation ← Writer.describe g h
    let text := enumerationText (members h enumerationAttributes) ident documentation
      (enumerationBase g names e) e
    return { handle := h, identifier := ident, prelude := some { binds := some ident, text } }
  | .function f => do
    let ident ← Writer.nameOf g names h
    let types := signature g names f
    return { handle := h, identifier := ident
             prelude := some
               { binds := some ident, uses := types.flatMap TypeExpression.uses
                 text := functionText ident (g.displayName h) types f } }
  | _ => .error (Writer.undeclarable g h)

/-! ## 5. The module -/

/-- What stands before the declarations. -/
def prologue (module : String) : String :=
  let e : Emitter := {}
  let e := e.emitLines (Writer.headerComment "ctypes" module)
  let e := (e.emitDocstring ("ctypes layout of native module ``" ++ module ++ "``.")).emitBlank 1
  ((e.emit "import ctypes").emitBlank 1).emit ("__native_module__ = " ++ Text.quoted module) |>.text

/-- The section that the prelude of an instance stands in: enumerations, aggregates, functions. -/
def sectionOf : Instance → Nat
  | .enumeration _ => 0
  | .aggregate _ => 1
  | .function _ => 2
  | _ => 3

/-- Fragments in the order of their preludes. -/
def preludeOrder (g : Graph) (fragments : List Fragment) : List Fragment :=
  fragments.mergeSort fun a b => sectionOf (g.get a.handle) ≤ sectionOf (g.get b.handle)

/-- The statements of a module in the order of their evaluation. -/
def statements (g : Graph) (fragments : List Fragment) : List Statement :=
  (preludeOrder g fragments).filterMap Fragment.prelude ++ fragments.filterMap Fragment.body

/-- The whole source. -/
def assemble (g : Graph) (module : String) (fragments : List Fragment) : String :=
  Writer.joinParts ([prologue module] ++ (statements g fragments).map Statement.text ++
    [Writer.epilogue (fragments.map Fragment.identifier)])

/-- The writer of packed structures. -/
def writer (options : WriterOptions) : Writer where
  name := "ctypes"
  options := options
  reference := reference
  declare := declare
  reserved g names? h :=
    match g.get h, names? with
    | .aggregate a, some names => .ok (reserved names a)
    | .aggregate a, none => if a.bases.isEmpty then .ok dataAttributes else .error .outside
    | .enumeration _, _ => .ok enumerationAttributes
    | _, _ => .ok []
  assemble := assemble

end NativeTypes.Ctypes
