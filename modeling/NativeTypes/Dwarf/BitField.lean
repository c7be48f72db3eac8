/-
NativeTypes.Dwarf.BitField — where a bit-field lies.

Bits are counted from the least significant one of a storage unit. Newer
debug information counts from the start of the aggregate: the unit is the
aligned one that holds the field, or a byte when the field lies across two
units. Older one counts from the most significant bit of a unit whose place
is given.
-/
namespace NativeTypes.Dwarf

/-- What debug information says about the place of a bit-field. -/
structure BitFieldPlace where
  /-- The width in bits. -/
  bitSize : Int
  /-- The size of the declared type in bytes. -/
  storageSize : Option Int := none
  /-- The bit counted from the start of the aggregate. -/
  dataBitOffset : Option Int := none
  /-- The byte at which the unit starts. -/
  byteOffset : Option Int := none
  /-- The bit counted from the most significant one of the unit. -/
  legacyBitOffset : Option Int := none
  /-- The size of the unit in bytes. -/
  legacyByteSize : Option Int := none
  littleEndian : Bool := true

namespace BitFieldPlace

/-- The number if there is one other than zero. -/
def nonzero (n : Option Int) : Option Int := n.filter (· ≠ 0)

/-- The bits of a storage unit; a type of unknown size has units of one byte. -/
def unitBits (p : BitFieldPlace) : Int := 8 * (nonzero p.storageSize).getD 1

/-- The place of a field that is counted from the start of the aggregate. -/
def fromStart (p : BitFieldPlace) (offset : Int) : Int × Int :=
  let unit := p.unitBits
  let byte := offset.fdiv unit * unit.fdiv 8
  let bit := offset - 8 * byte
  if bit + p.bitSize > unit then (offset.fdiv 8, offset.fmod 8) else (byte, bit)

/-- The bits of the unit that a field is counted in from the most significant one. -/
def legacyUnitBits (p : BitFieldPlace) : Int :=
  8 * ((nonzero p.legacyByteSize).orElse fun _ => nonzero p.storageSize).getD 1

/-- The place of a field whose unit is given. -/
def fromUnit (p : BitFieldPlace) : Int × Int :=
  let byte := p.byteOffset.getD 0
  match p.legacyBitOffset with
  | none => (byte, 0)
  | some bit => (byte, if p.littleEndian then p.legacyUnitBits - bit - p.bitSize else bit)

/-- The byte at which the storage unit starts and the bit inside it. -/
def normalize (p : BitFieldPlace) : Int × Int :=
  match p.dataBitOffset with
  | some offset => p.fromStart offset
  | none => p.fromUnit

end BitFieldPlace

end NativeTypes.Dwarf
