/-
NativeTypes.Resolver.Layout — whether the parts of an aggregate fit it.

Offsets are not negative. A base begins at the latest at the end of the
aggregate, a field before it; only an array without length, or of length
zero, may begin at the end. A bit-field has a positive width and lies
within the storage of its declared type, or one byte when that is not
known. An aggregate of unknown size bounds nothing from above.
-/
import NativeTypes.Instance.Graph

namespace NativeTypes

/-- A part that does not fit. -/
inductive LayoutFault
  | base (name : String) (part : BasePart) (size : Option Int)
  | field (part : FieldPart) (size : Option Int)
  | bits (name : String) (offset width limit : Int)
  deriving DecidableEq, Repr

/-- The words for a part that does not fit. -/
def LayoutFault.message : LayoutFault → String
  | base name part size =>
    "base " ++ name ++ " at offset " ++ part.place ++ " outside [0, " ++ sizeText size ++ "]"
  | field part size =>
    "field " ++ Text.quoted part.name ++ " at offset " ++ part.place ++ " outside [0, " ++
      sizeText size ++ ")"
  | bits name offset width limit =>
    "bit-field " ++ Text.quoted name ++ " bits [" ++ toString offset ++ ", " ++
      toString (offset + width) ++ ") exceed its " ++ toString limit ++ "-bit storage"
where
  /-- A size, or the word for an unknown one. -/
  sizeText (size : Option Int) : String := (size.map toString).getD "None"

/-- The numbers that the words for a part that does not fit hold. -/
def LayoutFault.numbers : LayoutFault → List Int
  | base _ part size => part.offset :: size.toList
  | field part size => part.offset :: size.toList
  | bits _ offset width limit => [offset, offset + width, limit]

/-- The words for a part that does not fit can be written. -/
def LayoutFault.isWritable (e : LayoutFault) : Bool := e.numbers.all Text.isWritable

namespace Graph

/-- The offset of a base fits an aggregate of this size. -/
def baseFits (size : Option Int) (offset : Int) : Bool :=
  0 ≤ offset && size.all fun n => offset ≤ n

/-- An array without length, or of length zero. -/
def isFlexible (g : Graph) (h : Handle) : Bool :=
  match g.get h with
  | .array _ length => length.getD 0 = 0
  | _ => false

/-- The offset of a field fits an aggregate of this size. -/
def fieldFits (size : Option Int) (flexible : Bool) (offset : Int) : Bool :=
  0 ≤ offset && size.all fun n => offset < n || (flexible && offset = n)

/-- The bits that a bit-field of this type may take: its storage, or one byte. -/
def bitLimit (g : Graph) (h : Handle) : Int :=
  match g.byteSize h with
  | none => 8
  | some n => if n = 0 then 8 else 8 * n

/-- The bits of a bit-field fit their storage. -/
def bitsFit (limit offset width : Int) : Bool :=
  0 < width && 0 ≤ offset && offset + width ≤ limit

/-- What is wrong with a base. -/
def baseFault? (g : Graph) (size : Option Int) (b : BasePart) : Option LayoutFault :=
  if baseFits size b.offset then none else some (.base (g.displayName b.type) b size)

/-- What is wrong with a field. -/
def fieldFault? (g : Graph) (size : Option Int) (f : FieldPart) : Option LayoutFault :=
  if fieldFits size (g.isFlexible f.type) f.offset then
    match f.bitWidth with
    | none => none
    | some width =>
      if bitsFit (g.bitLimit f.type) (f.bitOffset.getD 0) width then none
      else some (.bits f.name (f.bitOffset.getD 0) width (g.bitLimit f.type))
  else some (.field f size)

/-- The first part of an aggregate that does not fit: bases before fields. -/
def layoutFault? (g : Graph) (a : Aggregate) : Option LayoutFault :=
  (a.bases.findSome? (g.baseFault? a.size)).or (a.fields.findSome? (g.fieldFault? a.size))

end Graph

end NativeTypes
