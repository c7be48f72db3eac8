/-
NativeTypes.Proofs.Dwarf.BitField — bit-fields keep their place, and when
they fit the storage they are reported in.

Results:
  * `normalize_correct` — a field that is counted from the start keeps its
    first bit; its byte is that of an aligned unit if one holds it, and it
    begins in its byte otherwise. The older description of a field in an
    aligned unit gives the same pair.
  * `normalize_fits_iff` — the pair lies inside the storage of the declared
    type exactly when that many bytes in a row hold the field, and only then
    the layout check has nothing against its bits. `exists_outside`: a packed
    aggregate may hold a field that no such bytes hold.

Both rest on one equation, `fromStart_eq`: the place is quotient and
remainder by the unit, or by eight when the remainder leaves no room.
-/
import NativeTypes.Dwarf.Image
import NativeTypes.Resolver.Layout
import Mathlib.Tactic.Linarith

namespace NativeTypes.Dwarf

namespace BitFieldPlace

/-! ## 1. Units and bytes that hold a field -/

/-- One aligned unit holds the bits. -/
def InUnit (unit offset width : Int) : Prop :=
  ∃ k, unit * k ≤ offset ∧ offset + width ≤ unit * (k + 1)

/-- So many bytes in a row hold the bits. -/
def InBytes (count offset width : Int) : Prop :=
  ∃ byte, 8 * byte ≤ offset ∧ offset + width ≤ 8 * (byte + count)

/-- Bits that a unit holds have the quotient for their unit. -/
theorem eq_fdiv_of_inUnit {unit offset width k : Int} (wide : 1 ≤ width)
    (starts : unit * k ≤ offset) (ends : offset + width ≤ unit * (k + 1)) :
    0 < unit ∧ offset.fdiv unit = k := by
  have positive : 0 < unit := by linarith
  refine ⟨positive, le_antisymm ?_ ?_⟩
  · have : offset.fdiv unit < k + 1 := by
      rw [Int.fdiv_eq_ediv_of_nonneg _ positive.le]
      exact Int.ediv_lt_of_lt_mul positive (by linarith)
    omega
  · rw [Int.fdiv_eq_ediv_of_nonneg _ positive.le]
    exact Int.le_ediv_of_mul_le positive (by linarith)

/-- A unit holds the bits exactly when they fit behind the remainder. -/
theorem inUnit_iff {unit offset width : Int} (some_unit : unit ≠ 0) (wide : 1 ≤ width) :
    InUnit unit offset width ↔ offset.fmod unit + width ≤ unit := by
  have parts : unit * offset.fdiv unit + offset.fmod unit = offset := Int.mul_fdiv_add_fmod ..
  constructor
  · rintro ⟨k, starts, ends⟩
    obtain ⟨-, rfl⟩ := eq_fdiv_of_inUnit wide starts ends
    linarith
  · intro room
    have positive : 0 < unit := by
      by_contra negative
      have := Int.fmod_lt_of_pos (-offset) (show 0 < -unit by omega)
      rw [Int.neg_fmod_neg] at this
      omega
    have := Int.fmod_nonneg_of_pos offset positive
    exact ⟨offset.fdiv unit, by linarith, by linarith⟩

/-- So many bytes hold the bits exactly when those from their first byte on do. -/
theorem inBytes_iff {count offset width : Int} :
    InBytes count offset width ↔ offset.fmod 8 + width ≤ 8 * count := by
  have parts : 8 * offset.fdiv 8 + offset.fmod 8 = offset := Int.mul_fdiv_add_fmod ..
  have low := Int.fmod_nonneg_of_pos offset (show (0 : Int) < 8 by decide)
  have high := Int.fmod_lt_of_pos offset (show (0 : Int) < 8 by decide)
  constructor
  · rintro ⟨byte, starts, ends⟩
    omega
  · intro room
    exact ⟨offset.fdiv 8, by omega, by omega⟩

/-- The bytes of an aligned unit are bytes in a row. -/
theorem InUnit.inBytes {count offset width : Int} (h : InUnit (8 * count) offset width) :
    InBytes count offset width := by
  obtain ⟨k, starts, ends⟩ := h
  exact ⟨count * k, by linarith, by linarith⟩

/-! ## 2. Fields counted from the start -/

/-- The bytes of a storage unit. -/
def unitBytes (p : BitFieldPlace) : Int := (nonzero p.storageSize).getD 1

theorem unitBits_eq (p : BitFieldPlace) : p.unitBits = 8 * p.unitBytes := rfl

theorem nonzero_eq_some {n : Int} (known : n ≠ 0) : nonzero (some n) = some n := by
  rw [nonzero, Option.filter_some, if_pos (decide_eq_true known)]

theorem unitBytes_of_size {p : BitFieldPlace} {s : Int} (size : p.storageSize = some s)
    (known : s ≠ 0) : p.unitBytes = s := by
  rw [unitBytes, size, nonzero_eq_some known, Option.getD_some]

theorem unitBytes_ne_zero (p : BitFieldPlace) : p.unitBytes ≠ 0 := by
  cases size : p.storageSize with
  | none => simp [unitBytes, nonzero, size]
  | some n =>
    by_cases zero : n = 0
    · subst zero
      rw [unitBytes, size]
      decide
    · rwa [unitBytes_of_size size zero]

/-- The place is quotient and remainder by the unit, or by eight bits. -/
theorem fromStart_eq (p : BitFieldPlace) (offset : Int) :
    p.fromStart offset =
      if offset.fmod p.unitBits + p.bitSize ≤ p.unitBits then
        (p.unitBytes * offset.fdiv p.unitBits, offset.fmod p.unitBits)
      else (offset.fdiv 8, offset.fmod 8) := by
  have byte : offset.fdiv p.unitBits * p.unitBits.fdiv 8
      = p.unitBytes * offset.fdiv p.unitBits := by
    rw [unitBits_eq, Int.mul_fdiv_cancel_left _ (by decide), mul_comm]
  have bit : offset - 8 * (p.unitBytes * offset.fdiv p.unitBits) = offset.fmod p.unitBits := by
    have := Int.mul_fdiv_add_fmod offset p.unitBits
    rw [unitBits_eq] at this ⊢
    linarith
  simp only [fromStart, byte, bit]
  by_cases room : offset.fmod p.unitBits + p.bitSize ≤ p.unitBits
  · rw [if_neg (by omega), if_pos room]
  · rw [if_pos (by omega), if_neg room]

variable {p : BitFieldPlace} {offset : Int}

theorem normalize_of_counted (counted : p.dataBitOffset = some offset) :
    p.normalize = p.fromStart offset := by
  simp only [normalize, counted]

/-- A field that a unit holds: the unit's byte, and the bit inside the unit. -/
theorem normalize_of_inUnit (counted : p.dataBitOffset = some offset) (wide : 1 ≤ p.bitSize)
    {k : Int} (starts : p.unitBits * k ≤ offset)
    (ends : offset + p.bitSize ≤ p.unitBits * (k + 1)) :
    p.normalize = (p.unitBytes * k, offset - p.unitBits * k) := by
  obtain ⟨positive, quotient⟩ := eq_fdiv_of_inUnit wide starts ends
  have room := (inUnit_iff positive.ne' wide).mp ⟨k, starts, ends⟩
  have parts := Int.mul_fdiv_add_fmod offset p.unitBits
  rw [normalize_of_counted counted, fromStart_eq, if_pos room, quotient]
  rw [quotient] at parts
  exact Prod.ext rfl (by linarith)

/-- A field that no unit holds: its first byte, and the bit inside it. -/
theorem normalize_of_not_inUnit (counted : p.dataBitOffset = some offset) (wide : 1 ≤ p.bitSize)
    (straddles : ¬ InUnit p.unitBits offset p.bitSize) :
    p.normalize = (offset.fdiv 8, offset.fmod 8) := by
  have unit : p.unitBits ≠ 0 := mul_ne_zero (by decide) p.unitBytes_ne_zero
  rw [inUnit_iff unit wide] at straddles
  rw [normalize_of_counted counted, fromStart_eq, if_neg straddles]

/-- Bytes and bits together are where the field begins. -/
theorem normalize_keeps (counted : p.dataBitOffset = some offset) (wide : 1 ≤ p.bitSize) :
    8 * p.normalize.1 + p.normalize.2 = offset := by
  by_cases held : InUnit p.unitBits offset p.bitSize
  · obtain ⟨k, starts, ends⟩ := held
    rw [normalize_of_inUnit counted wide starts ends, unitBits_eq]
    linarith
  · rw [normalize_of_not_inUnit counted wide held]
    exact Int.mul_fdiv_add_fmod offset 8

theorem normalize_inside (counted : p.dataBitOffset = some offset) (wide : 1 ≤ p.bitSize)
    (held : InUnit p.unitBits offset p.bitSize) :
    p.unitBytes ∣ p.normalize.1 ∧ 0 ≤ p.normalize.2 ∧
      p.normalize.2 + p.bitSize ≤ p.unitBits := by
  obtain ⟨k, starts, ends⟩ := held
  rw [normalize_of_inUnit counted wide starts ends]
  exact ⟨Dvd.intro k rfl, by linarith, by linarith⟩

theorem normalize_in_byte (counted : p.dataBitOffset = some offset) (wide : 1 ≤ p.bitSize)
    (straddles : ¬ InUnit p.unitBits offset p.bitSize) :
    0 ≤ p.normalize.2 ∧ p.normalize.2 < 8 := by
  rw [normalize_of_not_inUnit counted wide straddles]
  exact ⟨Int.fmod_nonneg_of_pos offset (by decide), Int.fmod_lt_of_pos offset (by decide)⟩

/-- The older description of bits in a unit of `count` bytes: the byte at which the unit starts,
and the bits between the most significant one of the unit and that of the field. -/
def older (count byte bit width : Int) (storageSize : Option Int) : BitFieldPlace :=
  { bitSize := width, storageSize, byteOffset := some byte
    legacyBitOffset := some (8 * count - (bit + width)), legacyByteSize := some count }

theorem normalize_older {count : Int} (known : count ≠ 0) (byte bit width : Int)
    (storageSize : Option Int) :
    (older count byte bit width storageSize).normalize = (byte, bit) := by
  have units : (older count byte bit width storageSize).legacyUnitBits = 8 * count := by
    simp only [older, legacyUnitBits, nonzero_eq_some known, Option.orElse, Option.getD_some]
  simp only [normalize, fromUnit, older] at units ⊢
  simp only [units, Option.getD_some, if_true]
  congr 1
  omega

/-- A field that is counted from the start keeps its first bit. Where an aligned unit holds it,
the byte is that of the unit and the bits lie inside; elsewhere it begins in its byte. The older
description of a field that a unit holds gives the same place. -/
theorem normalize_correct (p : BitFieldPlace) (offset : Int)
    (counted : p.dataBitOffset = some offset) (wide : 1 ≤ p.bitSize) :
    8 * p.normalize.1 + p.normalize.2 = offset ∧
      (InUnit p.unitBits offset p.bitSize →
        p.unitBytes ∣ p.normalize.1 ∧ 0 ≤ p.normalize.2 ∧
          p.normalize.2 + p.bitSize ≤ p.unitBits) ∧
      (¬ InUnit p.unitBits offset p.bitSize → 0 ≤ p.normalize.2 ∧ p.normalize.2 < 8) ∧
      ∀ (k : Int) (storageSize : Option Int),
        p.unitBits * k ≤ offset → offset + p.bitSize ≤ p.unitBits * (k + 1) →
        (older p.unitBytes (p.unitBytes * k) (offset - p.unitBits * k) p.bitSize
          storageSize).normalize = p.normalize := by
  refine ⟨normalize_keeps counted wide, normalize_inside counted wide,
    normalize_in_byte counted wide, ?_⟩
  intro k storageSize starts ends
  rw [normalize_older p.unitBytes_ne_zero, normalize_of_inUnit counted wide starts ends]

/-- Three bits of the second unit of four bytes. -/
theorem normalize_correct_second :
    let p : BitFieldPlace := { bitSize := 3, storageSize := some 4, dataBitOffset := some 35 }
    8 * p.normalize.1 + p.normalize.2 = 35 ∧ p.unitBytes ∣ p.normalize.1 ∧
      (older 4 4 3 3 none).normalize = p.normalize := by
  intro p
  obtain ⟨kept, inside, -, same⟩ := normalize_correct p 35 rfl (by decide)
  have held : p.unitBits * 1 ≤ 35 ∧ 35 + p.bitSize ≤ p.unitBits * (1 + 1) := by decide
  exact ⟨kept, (inside ⟨1, held⟩).1, same 1 none held.1 held.2⟩

/-! ## 3. The storage of the declared type -/

/-- The bits lie inside the storage of the declared type exactly when that many bytes in a row
hold the field, and the layout check refuses the field for its bits exactly when they do not. -/
theorem normalize_fits_iff (p : BitFieldPlace) (s offset : Int) (size : p.storageSize = some s)
    (known : 1 ≤ s) (counted : p.dataBitOffset = some offset) (wide : 1 ≤ p.bitSize) :
    0 ≤ p.normalize.2 ∧
      (p.normalize.2 + p.bitSize ≤ 8 * s ↔ InBytes s offset p.bitSize) ∧
      ∀ (g : Graph) (whole : Option Int) (f : FieldPart), g.byteSize f.type = some s →
        f.bitOffset = some p.normalize.2 → f.bitWidth = some p.bitSize →
        ((∃ name first width limit, g.fieldFault? whole f = some (.bits name first width limit)) ↔
          Graph.fieldFits whole (g.isFlexible f.type) f.offset ∧
            ¬ InBytes s offset p.bitSize) := by
  have unit : p.unitBits = 8 * s := by rw [unitBits_eq, unitBytes_of_size size (by omega)]
  have begins : 0 ≤ p.normalize.2 := by
    by_cases held : InUnit p.unitBits offset p.bitSize
    · exact (normalize_inside counted wide held).2.1
    · exact (normalize_in_byte counted wide held).1
  have fits : p.normalize.2 + p.bitSize ≤ 8 * s ↔ InBytes s offset p.bitSize := by
    by_cases held : InUnit p.unitBits offset p.bitSize
    · exact ⟨fun _ => (unit ▸ held).inBytes, fun _ => unit ▸ (normalize_inside counted wide held).2.2⟩
    · rw [normalize_of_not_inUnit counted wide held, inBytes_iff]
  refine ⟨begins, fits, ?_⟩
  intro g whole f storage first width
  have limit : g.bitLimit f.type = 8 * s := by
    simp only [Graph.bitLimit, storage]
    exact if_neg (by omega)
  have room : Graph.bitsFit (8 * s) p.normalize.2 p.bitSize = true ↔
      InBytes s offset p.bitSize := by
    rw [← fits]
    simp only [Graph.bitsFit, Bool.and_eq_true, decide_eq_true_eq]
    omega
  simp only [Graph.fieldFault?, limit, first, width, Option.getD_some]
  by_cases placed : Graph.fieldFits whole (g.isFlexible f.type) f.offset = true
  · by_cases held : InBytes s offset p.bitSize
    · simp [placed, held, room.mpr held]
    · simp [placed, held, mt room.mp held]
  · simp [placed]

/-- Eight bits across two units of four bytes fit the four bytes from their first one on. -/
theorem normalize_fits_iff_straddling :
    let p : BitFieldPlace := { bitSize := 8, storageSize := some 4, dataBitOffset := some 28 }
    p.normalize.2 + p.bitSize ≤ 8 * 4 := by
  intro p
  obtain ⟨-, fits, -⟩ := normalize_fits_iff p 4 28 rfl (by decide) rfl (by decide)
  exact fits.mpr ⟨3, by decide, by decide⟩

/-- Thirty bits behind five others, as a compiler packs them into five bytes: counted in the four
of their declared type they end behind these, and the layout check refuses them. -/
theorem exists_outside :
    (¬ ∀ (p : BitFieldPlace) (s offset : Int), p.storageSize = some s → 1 ≤ s →
      p.dataBitOffset = some offset → 0 ≤ offset → 1 ≤ p.bitSize → p.bitSize ≤ 8 * s →
      0 ≤ p.normalize.2 ∧ p.normalize.2 + p.bitSize ≤ 8 * s) ∧
    (let p : BitFieldPlace := { bitSize := 30, storageSize := some 4, dataBitOffset := some 5 }
     let f : FieldPart := ⟨"b", 0, p.normalize.1, some p.normalize.2, some p.bitSize, false⟩
     (Graph.mk #[.primitive .uint32]).fieldFault? (some 5) f = some (.bits "b" 5 30 32)) := by
  constructor
  · intro always
    have := always { bitSize := 30, storageSize := some 4, dataBitOffset := some 5 } 4 5 rfl
      (by decide) rfl (by decide) (by decide) (by decide)
    revert this
    decide
  · decide +kernel

end BitFieldPlace

/-! ## 4. Members -/

/-- A member whose bits are counted from the start describes a field with these bits. -/
theorem Image.field?_of_counted (image : Image) (isUnion : Bool) {e : Entry} {width offset : Int}
    (member : e.tag = .member) (bits : e.int? .bitSize = some width) (wide : 1 ≤ width)
    (counted : e.int? .dataBitOffset = some offset) :
    ∃ f bit, image.field? isUnion e = some f ∧ f.bitOffset = some bit ∧
      f.bitWidth = some width ∧ 8 * f.offset + bit = offset := by
  have belongs : isStatic isUnion e = false := by simp [isStatic, counted]
  have kept : 8 * (image.bitFieldPlace e width).normalize.1 +
      (image.bitFieldPlace e width).normalize.2 = offset :=
    BitFieldPlace.normalize_keeps counted wide
  refine ⟨⟨e.name, image.typeRef e, (image.bitFieldPlace e width).normalize.1,
    some (image.bitFieldPlace e width).normalize.2, some width, false⟩, _, ?_, rfl, rfl, kept⟩
  simp [field?, member, belongs, bits, counted]

end NativeTypes.Dwarf
