/-
NativeTypes.Proofs.Writer.Packed — every member stands where it does natively.

The entries of a structure are read as one sequence without gaps: padding,
bases and fields take their bytes, bit-fields and fillers their bits. A
`Segment` is a piece of it between two bytes in which every member stands at
its place and every storage unit is one whole run. Each step of the layout adds
a segment or nothing, whatever overlaps or has no layout, and segments add up
(`Segment.append`); so nothing is needed about the order in which members come,
except that the cursor never moves back.

What is to be shown of the result speaks of positions, while the layout appends
entries and keeps a cursor. The two are connected by `span`: an entry starts
where those before it end. So a member stands at its place if the cursor was at
its offset when it was added, which is what padding is for. It is not enough to
have each entry at its place: a bit-field is at its place only if the other
entries of its unit are adjacent and of one type, since that is what makes them
share the unit. `HasUnit` says that of a sequence and is kept when entries of
other units come on either side of it.

Inside a storage unit the same is done once more, in bits: `Filled` is the
invariant of the loop that places bit-fields and fillers, from the start of the
unit to its end (`Filled.hasUnit`).
-/
import Mathlib.Algebra.Ring.Int.Defs
import Mathlib.Data.List.TakeWhile
import NativeTypes.Proofs.Writer.Steps
import NativeTypes.Resolver.Layout

namespace NativeTypes.Ctypes

/-! ## 1. Entries as a packed sequence

The entries say what is written, not where it is. The position of an entry is the sum of the
widths of those before it. -/

namespace Entry

/-- How many bits an entry takes. -/
def width : Entry → Int
  | padding _ bytes | base _ _ _ bytes | field _ _ _ bytes => 8 * bytes
  | bits _ _ _ width | filler _ _ _ width => width

/-- The bit-field of a bit entry; a filler has that of the first one in its unit. -/
def bitField? (a : Aggregate) : Entry → Option FieldPart
  | bits index .. => a.fields[index]?
  | filler first .. => some first
  | padding .. | base .. | field .. => none

/-- The storage type of a bit entry. -/
def storage? : Entry → Option String
  | bits _ _ storage _ | filler _ _ storage _ => some storage
  | padding .. | base .. | field .. => none

/-- The entry is part of the storage unit at a byte. -/
def inUnit (a : Aggregate) (offset : Int) (e : Entry) : Bool :=
  (e.bitField? a).any fun f => f.offset = offset

/-- The bit behind a member, or behind the storage unit of a bit entry. -/
def endBit? (g : Graph) (a : Aggregate) : Entry → Option Int
  | base index _ _ bytes => a.bases[index]?.map fun b => 8 * (b.offset + bytes)
  | field index _ _ bytes => a.fields[index]?.map fun f => 8 * (f.offset + bytes)
  | padding .. => none
  | e => (e.bitField? a).map fun f => 8 * f.offset + g.bitLimit f.type

/-- An entry at a bit stands where its member does natively, and has the type and size of it. -/
def Stands (g : Graph) (names : NameTable) (a : Aggregate) (start : Int) : Entry → Prop
  | base index _ type bytes => ∃ b, a.bases[index]? = some b ∧
      typeOf? g names b.type = some type ∧ bytes = (g.byteSize b.type).getD 0 ∧
      start = 8 * b.offset
  | field index _ type bytes => ∃ f, a.fields[index]? = some f ∧ f.bitWidth = none ∧
      typeOf? g names f.type = some type ∧ bytes = (g.byteSize f.type).getD 0 ∧
      start = 8 * f.offset
  | bits index _ _ width => ∃ f, a.fields[index]? = some f ∧ f.bitWidth = some width ∧
      start = 8 * f.offset + f.bitOffset.getD 0
  | padding .. | filler .. => True

end Entry

/-- How many bits entries take together. -/
def span (es : List Entry) : Int := (es.map Entry.width).sum

@[simp] theorem span_nil : span [] = 0 := rfl

@[simp] theorem span_cons (e : Entry) (es : List Entry) : span (e :: es) = e.width + span es := by
  simp [span]

@[simp] theorem span_append (xs ys : List Entry) : span (xs ++ ys) = span xs + span ys := by
  simp [span]

section

variable (g : Graph) (names : NameTable) (a : Aggregate)

/-- Entries that follow each other from a bit on stand at their places. -/
def Standing (start : Int) : List Entry → Prop
  | [] => True
  | e :: es => e.Stands g names a start ∧ Standing (start + e.width) es

/-- Among entries from a bit on, the storage unit of a bit-field is one run of whole length, of
one storage type, and all there is of it. -/
def HasUnit (start : Int) (es : List Entry) (f : FieldPart) : Prop :=
  ∃ before unit after, es = before ++ unit ++ after ∧
    unit = es.filter (Entry.inUnit a f.offset) ∧ start + span before = 8 * f.offset ∧
    span unit = g.bitLimit f.type ∧
    ∃ bytes storage, g.bitLimit f.type = 8 * bytes ∧ storageOf? bytes = some storage ∧
      ∀ e ∈ unit, e.storage? = some storage

end

section

variable {g : Graph} {names : NameTable} {a : Aggregate}

/-- Entries behind others start where those end. -/
theorem standing_append {start : Int} {xs ys : List Entry} :
    Standing g names a start (xs ++ ys) ↔
      Standing g names a start xs ∧ Standing g names a (start + span xs) ys := by
  induction xs generalizing start with
  | nil => simp [Standing]
  | cons e xs ih => simp [Standing, ih, and_assoc, Int.add_assoc]

/-- Any one of the entries stands at its place. -/
theorem Standing.stands {start : Int} {es before after : List Entry} {e : Entry}
    (h : Standing g names a start es) (hsplit : es = before ++ e :: after) :
    e.Stands g names a (start + span before) := by
  subst hsplit
  exact (standing_append.mp h).2.1

theorem Entry.inUnit_iff {offset : Int} {e : Entry} :
    e.inUnit a offset = true ↔ ∃ f, e.bitField? a = some f ∧ f.offset = offset := by
  unfold inUnit
  cases e.bitField? a <;> simp

theorem filter_inUnit_eq_nil {offset : Int} {es : List Entry}
    (h : ∀ e ∈ es, ∀ f, e.bitField? a = some f → f.offset ≠ offset) :
    es.filter (Entry.inUnit a offset) = [] := by
  refine List.filter_eq_nil_iff.mpr fun e he hunit => ?_
  obtain ⟨f, hf, hoffset⟩ := Entry.inUnit_iff.mp hunit
  exact h e he f hf hoffset

/-- A unit stays whole when entries of other units come behind. -/
theorem HasUnit.append {start : Int} {es ys : List Entry} {f : FieldPart}
    (h : HasUnit g a start es f)
    (hys : ∀ e ∈ ys, ∀ f', e.bitField? a = some f' → f'.offset ≠ f.offset) :
    HasUnit g a start (es ++ ys) f := by
  obtain ⟨before, unit, after, hsplit, hunit, hrest⟩ := h
  refine ⟨before, unit, after ++ ys, ?_, ?_, hrest⟩
  · rw [hsplit, List.append_assoc _ after]
  · rw [List.filter_append, filter_inUnit_eq_nil hys, List.append_nil, hunit]

/-- A unit stays whole when entries of other units come in front. -/
theorem HasUnit.prepend {start mid : Int} {xs es : List Entry} {f : FieldPart}
    (h : HasUnit g a mid es f) (hmid : start + span xs = mid)
    (hxs : ∀ e ∈ xs, ∀ f', e.bitField? a = some f' → f'.offset ≠ f.offset) :
    HasUnit g a start (xs ++ es) f := by
  obtain ⟨before, unit, after, hsplit, hunit, hbefore, hrest⟩ := h
  refine ⟨xs ++ before, unit, after, ?_, ?_, ?_, hrest⟩
  · rw [hsplit]
    simp only [List.append_assoc]
  · rw [List.filter_append, filter_inUnit_eq_nil hxs, List.nil_append, hunit]
  · rw [span_append]
    omega

/-! ## 2. Segments -/

variable (g names a) in
/-- Entries that fill the bytes from `start` to `stop`, every member and unit at its place. -/
structure Segment (start : Int) (es : List Entry) (stop : Int) : Prop where
  le : start ≤ stop
  filled : span es = 8 * (stop - start)
  standing : Standing g names a (8 * start) es
  units : ∀ e ∈ es, ∀ f, e.bitField? a = some f →
    HasUnit g a (8 * start) es f ∧ start ≤ f.offset ∧ f.offset < stop
  /-- What ends before a byte ends with its last member, not with padding. -/
  reached : stop = start ∨ ∃ e ∈ es, e.endBit? g a = some (8 * stop)

namespace Segment

theorem nil (start : Int) : Segment g names a start [] start where
  le := Int.le_refl start
  filled := by simp
  standing := trivial
  units := nofun
  reached := .inl rfl

/-- A segment is as long as the bytes between its ends. -/
theorem mid {start stop : Int} {es : List Entry} (h : Segment g names a start es stop) :
    8 * start + span es = 8 * stop := by
  rw [h.filled]
  omega

theorem append {start mid stop : Int} {xs ys : List Entry}
    (hx : Segment g names a start xs mid) (hy : Segment g names a mid ys stop) :
    Segment g names a start (xs ++ ys) stop where
  le := Int.le_trans hx.le hy.le
  filled := by
    rw [span_append, hx.filled, hy.filled]
    omega
  standing := standing_append.mpr ⟨hx.standing, hx.mid ▸ hy.standing⟩
  units := by
    intro e he f hf
    rcases List.mem_append.mp he with he | he
    · obtain ⟨hunit, hle, hlt⟩ := hx.units e he f hf
      refine ⟨hunit.append fun e' he' f' hf' => ?_, hle, Int.lt_of_lt_of_le hlt hy.le⟩
      have := (hy.units e' he' f' hf').2.1
      omega
    · obtain ⟨hunit, hle, hlt⟩ := hy.units e he f hf
      refine ⟨hunit.prepend hx.mid fun e' he' f' hf' => ?_, Int.le_trans hx.le hle, hlt⟩
      have := (hx.units e' he' f' hf').2.2
      omega
  reached := by
    rcases hy.reached with rfl | ⟨e, he, hend⟩
    · exact hx.reached.imp_right fun ⟨e, he, hend⟩ => ⟨e, List.mem_append_left _ he, hend⟩
    · exact .inr ⟨e, List.mem_append_right _ he, hend⟩

end Segment

/-- Padding over so many bytes. -/
structure Gap (pads : List Entry) (bytes : Int) : Prop where
  padding : ∀ e ∈ pads, ∃ name n, e = .padding name n
  filled : span pads = 8 * bytes

/-- Padding up to an offset that was not passed yet. -/
theorem exists_padTo {p : Placement} {offset : Int} (hle : p.cursor ≤ offset) :
    ∃ pads, Gap pads (offset - p.cursor) ∧
      (p.padTo false offset).entries = p.entries ++ pads ∧
      (p.padTo false offset).cursor = offset := by
  unfold Placement.padTo
  split
  · refine ⟨[_], ⟨List.forall_mem_singleton.mpr ⟨_, _, rfl⟩, ?_⟩, rfl, rfl⟩
    rw [span_cons, span_nil, Int.add_zero]
    rfl
  · rename_i hlt
    have heq : p.cursor = offset := by simp at hlt; omega
    exact ⟨[], ⟨nofun, by simp [heq]⟩, (List.append_nil _).symm, heq⟩

theorem Gap.standing {pads : List Entry} {bytes start : Int} (h : Gap pads bytes) :
    Standing g names a start pads := by
  have hpadding := h.padding
  clear h
  induction pads generalizing start with
  | nil => trivial
  | cons e pads ih =>
    obtain ⟨⟨name, n, rfl⟩, hpads⟩ := List.forall_mem_cons.mp hpadding
    exact ⟨trivial, ih hpads⟩

theorem Gap.bitField? {pads : List Entry} {bytes : Int} (h : Gap pads bytes) :
    ∀ e ∈ pads, ∀ f, e.bitField? a = some f → False := by
  intro e he f hf
  obtain ⟨name, n, rfl⟩ := h.padding e he
  cases hf

/-- Members from a byte on, with padding up to it. -/
theorem Segment.padded {start offset stop : Int} {pads es : List Entry}
    (hgap : Gap pads (offset - start)) (hle : start ≤ offset) (hstop : offset ≤ stop)
    (hspan : span es = 8 * (stop - offset)) (hstanding : Standing g names a (8 * offset) es)
    (hunits : ∀ e ∈ es, ∀ f, e.bitField? a = some f →
      HasUnit g a (8 * offset) es f ∧ f.offset = offset ∧ offset < stop)
    (hreached : ∃ e ∈ es, e.endBit? g a = some (8 * stop)) :
    Segment g names a start (pads ++ es) stop := by
  have hmid : 8 * start + span pads = 8 * offset := by
    rw [hgap.filled]
    omega
  refine ⟨Int.le_trans hle hstop, ?_, standing_append.mpr ⟨hgap.standing, hmid ▸ hstanding⟩,
    fun e he f hf => ?_, .inr ?_⟩
  · rw [span_append, hgap.filled, hspan]
    omega
  · rcases List.mem_append.mp he with he | he
    · exact (hgap.bitField? e he f hf).elim
    · obtain ⟨hunit, rfl, hlt⟩ := hunits e he f hf
      exact ⟨hunit.prepend hmid fun e' he' f' hf' => (hgap.bitField? e' he' f' hf').elim, hle, hlt⟩
  · obtain ⟨e, he, hend⟩ := hreached
    exact ⟨e, List.mem_append_right _ he, hend⟩

/-! ## 3. Bases and plain fields -/

variable (g names a) in
/-- The members placed so far fill the bytes up to the cursor, each at its place. -/
def Packed (p : Placement) : Prop := Segment g names a 0 p.entries p.cursor

/-- A member that is left out, with a note, changes nothing. -/
theorem Packed.kept {p p' : Placement} (hp : Packed g names a p) (h : Kept p p') :
    Packed g names a p' := by
  unfold Packed
  rw [h.entries, h.cursor]
  exact hp

/-- One more base or field, with padding in front. -/
theorem Packed.add {p p' : Placement} (hp : Packed g names a p) {offset bytes : Int} {e : Entry}
    (h : Placed false p offset [e] (offset + bytes) p') (hle : p.cursor ≤ offset)
    (hbytes : 0 ≤ bytes) (hwidth : e.width = 8 * bytes)
    (hstands : e.Stands g names a (8 * offset)) (hbits : e.bitField? a = none)
    (hend : e.endBit? g a = some (8 * (offset + bytes))) : Packed g names a p' := by
  obtain ⟨pads, hgap, hentries, -⟩ := exists_padTo hle
  have hnext : Segment g names a p.cursor (pads ++ [e]) (offset + bytes) := by
    refine .padded hgap hle (by omega) ?_ ⟨hstands, trivial⟩ ?_ ⟨e, List.mem_singleton_self e, hend⟩
    · rw [span_cons, span_nil, hwidth]
      omega
    · refine List.forall_mem_singleton.mpr fun f hf => ?_
      rw [hbits] at hf
      cases hf
  unfold Packed
  rw [h.entries, h.cursor, hentries, List.append_assoc]
  exact Segment.append hp hnext

/-- One base: it is added, or it is left out because it has no layout or overlaps. -/
theorem packed_placeBase {p : Placement} (hp : Packed g names a p) {index : Nat}
    {b : BasePart} (hb : a.bases[index]? = some b)
    (hsize : ∀ n, g.byteSize b.type = some n → 0 ≤ n) (name : String) :
    Packed g names a (placeBase g names false p index name b) := by
  rcases placeBase_step g names false p index name b with
    ⟨hkept, -⟩ | ⟨type, size, htype, hbytes, hle, hplaced⟩
  · exact hp.kept hkept
  · refine hp.add hplaced hle (hsize size hbytes) rfl ?_ rfl ?_
    · exact ⟨b, hb, htype, by rw [hbytes]; rfl, rfl⟩
    · simp [Entry.endBit?, hb]

/-- All bases, by induction on those that are left. -/
theorem packed_placeBases {p : Placement} (hp : Packed g names a p) {index : Nat}
    {bs : List (String × BasePart)} (hbs : ∀ k x, bs[k]? = some x → a.bases[index + k]? = some x.2)
    (hsizes : ∀ x ∈ bs, ∀ n, g.byteSize x.2.type = some n → 0 ≤ n) :
    Packed g names a (placeBases g names false p index bs) := by
  induction bs generalizing p index with
  | nil => exact hp
  | cons x bs ih =>
    obtain ⟨hsize, hsizes⟩ := List.forall_mem_cons.mp hsizes
    rw [placeBases]
    refine ih (packed_placeBase hp (hbs 0 x rfl) hsize x.1) (fun k y hy => ?_) hsizes
    have := hbs (k + 1) y hy
    rwa [Nat.add_comm k 1, ← Nat.add_assoc] at this

variable (g a) in
/-- A field of the aggregate with its place, and what is known of its bits and its size. -/
structure Member.Known (m : Member) : Prop where
  field : a.fields[m.index]? = some m.field
  size : ∀ n, g.byteSize m.field.type = some n → 0 ≤ n
  fits : g.fieldFault? a.size m.field = none

/-- One field that is no bit-field, likewise. -/
theorem packed_placeField {p : Placement} (hp : Packed g names a p) {m : Member}
    (hm : m.Known g a) (hplain : m.field.isBitField = false) :
    Packed g names a (placeField g names false p m) := by
  have hsize : 0 ≤ (g.byteSize m.field.type).getD 0 := by
    cases hn : g.byteSize m.field.type with
    | none => exact Int.le_refl 0
    | some n => exact hm.size n hn
  rcases placeField_step g names false p m with
    ⟨hkept, -⟩ | ⟨type, htype, -, -, hle, hplaced⟩
  · exact hp.kept hkept
  · refine hp.add hplaced (hle rfl) hsize rfl ?_ rfl ?_
    · exact ⟨m.field, hm.field, by simpa [FieldPart.isBitField] using hplain, htype, rfl, rfl⟩
    · simp [Entry.endBit?, hm.field]

/-! ## 4. Storage units

Bit-fields at one byte share a storage unit, as large as the type of the first of them. The unit
is placed as a whole: bit-fields at their bits, fillers in between and behind. -/

/-- The bits that fit into the type of a field are those of its unit. -/
theorem bitLimit_eq (m : Member) : g.bitLimit m.field.type = 8 * unitOf g m := by
  unfold Graph.bitLimit unitOf
  cases g.byteSize m.field.type with
  | none => rfl
  | some n =>
    dsimp only
    split <;> rfl

variable (g a) in
/-- A bit-field in the storage unit of another one. -/
structure Member.Shares (first : FieldPart) (m : Member) : Prop where
  known : m.Known g a
  bits : m.field.isBitField
  offset : m.field.offset = first.offset
  limit : g.bitLimit m.field.type = g.bitLimit first.type

/-- A bit-field of the unit lies within its bits. -/
theorem Member.Shares.exists_width {first : FieldPart} {m : Member} (h : m.Shares g a first) :
    ∃ width, m.field.bitWidth = some width ∧ 0 < width ∧ 0 ≤ m.field.bitOffset.getD 0 ∧
      m.field.bitOffset.getD 0 + width ≤ g.bitLimit first.type := by
  obtain ⟨width, hwidth⟩ := Option.isSome_iff_exists.mp h.bits
  have hfits := h.known.fits
  unfold Graph.fieldFault? at hfits
  split at hfits
  · rw [hwidth] at hfits
    dsimp only at hfits
    split at hfits
    · rename_i hbits
      simp only [Graph.bitsFit, Bool.and_eq_true, decide_eq_true_eq, h.limit] at hbits
      exact ⟨width, hwidth, hbits.1.1, hbits.1.2, hbits.2⟩
    · cases hfits
  · cases hfits

variable (g a) in
/-- A bit entry in the storage unit of a bit-field. -/
structure Entry.Belongs (first : FieldPart) (storage : String) (e : Entry) : Prop where
  storage : e.storage? = some storage
  bitField : ∃ f, e.bitField? a = some f ∧ f.offset = first.offset ∧
    g.bitLimit f.type = g.bitLimit first.type
  endBit : e.endBit? g a = some (8 * first.offset + g.bitLimit first.type)

theorem Entry.belongs_filler (first : FieldPart) (number : Nat) (storage : String) (width : Int) :
    (Entry.filler first number storage width).Belongs g a first storage :=
  ⟨rfl, ⟨first, rfl, rfl, rfl⟩, rfl⟩

theorem Member.Shares.belongs {first : FieldPart} {m : Member} (h : m.Shares g a first)
    (storage : String) (width : Int) :
    (Entry.bits m.index m.name storage width).Belongs g a first storage := by
  refine ⟨rfl, ⟨m.field, h.known.field, h.offset, h.limit⟩, ?_⟩
  simp [Entry.endBit?, Entry.bitField?, h.known.field, h.offset, h.limit]

variable (g names a) in
/-- The bit entries of a unit fill it from its start up to a bit. -/
structure Filled (first : FieldPart) (storage : String) (unit : List Entry) (bit : Int) :
    Prop where
  filled : span unit = bit
  standing : Standing g names a (8 * first.offset) unit
  belongs : ∀ e ∈ unit, e.Belongs g a first storage
  le : bit ≤ g.bitLimit first.type

section

variable {first : FieldPart} {storage : String} {start unit : List Entry}

/-- One more entry, right behind the others. -/
theorem Filled.add {bit : Int} (h : Filled g names a first storage unit bit) {e : Entry}
    (hstands : e.Stands g names a (8 * first.offset + bit))
    (hbelongs : e.Belongs g a first storage) (hle : bit + e.width ≤ g.bitLimit first.type) :
    Filled g names a first storage (unit ++ [e]) (bit + e.width) where
  filled := by simp [h.filled]
  standing := standing_append.mpr ⟨h.standing, h.filled.symm ▸ hstands, trivial⟩
  belongs := List.forall_mem_append.mpr ⟨h.belongs, List.forall_mem_singleton.mpr hbelongs⟩
  le := hle

variable (g names a) in
/-- Behind the entries `start` the bits of a unit are placed, up to a bit. -/
def Bits.FilledTo (start : List Entry) (first : FieldPart) (storage : String) (b : Bits)
    (bit : Int) : Prop :=
  ∃ unit, b.placement.entries = start ++ unit ∧ Filled g names a first storage unit bit

/-- A filler up to a bit that was not passed yet. -/
theorem Bits.FilledTo.fillTo {b : Bits} (h : b.FilledTo g names a start first storage b.bit)
    {bit : Int} (hle : b.bit ≤ bit) (hlimit : bit ≤ g.bitLimit first.type) :
    (b.fillTo storage first bit).FilledTo g names a start first storage bit := by
  obtain ⟨unit, hentries, hfilled⟩ := h
  unfold Bits.fillTo
  split
  · have hnext : b.bit + (bit - b.bit) = bit := by omega
    have hadded : Filled g names a first storage
        (unit ++ [.filler first b.fillers storage (bit - b.bit)]) (b.bit + (bit - b.bit)) :=
      hfilled.add trivial (Entry.belongs_filler ..) (hnext.trans_le hlimit)
    rw [hnext] at hadded
    refine ⟨_, ?_, hadded⟩
    rw [← List.append_assoc, ← hentries]
    rfl
  · have heq : b.bit = bit := by omega
    exact ⟨unit, hentries, heq ▸ hfilled⟩

/-- A bit-field, with a filler in front; one that overlaps is left out. -/
theorem Bits.FilledTo.placeBit {b : Bits} (h : b.FilledTo g names a start first storage b.bit)
    {m : Member} (hm : m.Shares g a first) :
    (placeBit storage first b m).FilledTo g names a start first storage
      (Ctypes.placeBit storage first b m).bit := by
  obtain ⟨width, hwidth, hpos, -, hlimit⟩ := hm.exists_width
  unfold Ctypes.placeBit
  dsimp only
  split
  · exact h
  · rename_i hstart
    obtain ⟨unit, hentries, hfilled⟩ := h.fillTo (Int.not_lt.mp hstart) (by omega)
    refine ⟨unit ++ [.bits m.index m.name storage width], ?_, ?_⟩
    · rw [← List.append_assoc, ← hentries, hwidth]
      rfl
    · rw [hwidth]
      refine hfilled.add ⟨m.field, hm.known.field, hwidth, ?_⟩ (hm.belongs ..) hlimit
      rw [hm.offset]

/-- All bit-fields of the unit. -/
theorem Bits.FilledTo.foldl {b : Bits} (h : b.FilledTo g names a start first storage b.bit)
    {ms : List Member} (hms : ∀ m ∈ ms, m.Shares g a first) :
    (ms.foldl (Ctypes.placeBit storage first) b).FilledTo g names a start first storage
      (ms.foldl (Ctypes.placeBit storage first) b).bit := by
  induction ms generalizing b with
  | nil => exact h
  | cons m ms ih =>
    obtain ⟨hm, hms⟩ := List.forall_mem_cons.mp hms
    exact ih (h.placeBit hm) hms

end

theorem Bits.FilledTo.le {b : Bits} {start : List Entry} {first : FieldPart} {storage : String}
    {bit : Int} (h : b.FilledTo g names a start first storage bit) :
    bit ≤ g.bitLimit first.type := by
  obtain ⟨_, _, hfilled⟩ := h
  exact hfilled.le

/-- A whole unit is one run of bit entries. -/
theorem Filled.hasUnit {first : Member} {storage : String} {unit : List Entry}
    (h : Filled g names a first.field storage unit (8 * unitOf g first))
    (hstorage : storageOf? (unitOf g first) = some storage) {f : FieldPart}
    (hoffset : f.offset = first.field.offset)
    (hlimit : g.bitLimit f.type = g.bitLimit first.field.type) :
    HasUnit g a (8 * first.field.offset) unit f := by
  have hbits := hlimit.trans (bitLimit_eq first)
  refine ⟨[], unit, [], (List.append_nil unit).symm, ?_, by simp [hoffset],
    h.filled.trans hbits.symm, unitOf g first, storage, hbits, hstorage,
    fun e he => (h.belongs e he).storage⟩
  refine (List.filter_eq_self.mpr fun e he => Entry.inUnit_iff.mpr ?_).symm
  obtain ⟨f', hf', hoffset', -⟩ := (h.belongs e he).bitField
  exact ⟨f', hf', hoffset'.trans hoffset.symm⟩

/-- A whole unit with padding in front of it is a segment. -/
theorem Filled.segment {first : Member} {storage : String} {unit pads : List Entry}
    (h : Filled g names a first.field storage unit (8 * unitOf g first))
    (hstorage : storageOf? (unitOf g first) = some storage) {start : Int}
    (hgap : Gap pads (first.field.offset - start)) (hle : start ≤ first.field.offset) :
    Segment g names a start (pads ++ unit) (first.field.offset + unitOf g first) := by
  have hpos := storageOf?_pos hstorage
  refine .padded hgap hle (by omega) ?_ h.standing ?_ ?_
  · rw [h.filled]
    omega
  · intro e he f hf
    obtain ⟨f', hf', hsame, hlimit⟩ := (h.belongs e he).bitField
    obtain rfl := Option.some.inj (hf'.symm.trans hf)
    exact ⟨h.hasUnit hstorage hsame hlimit, hsame, by omega⟩
  · have hlength := h.filled
    cases unit with
    | nil =>
      rw [span_nil] at hlength
      omega
    | cons e rest =>
      refine ⟨e, List.mem_cons_self, ?_⟩
      rw [(h.belongs e List.mem_cons_self).endBit, bitLimit_eq first, Int.mul_add]

/-- A whole unit with its padding, or none of it. -/
theorem packed_placeUnit {p : Placement} (hp : Packed g names a p) {first : Member}
    {group : List Member} (hgroup : ∀ m ∈ group, m.Shares g a first.field) :
    Packed g names a (placeUnit g false p first group) := by
  have hnotes := hp.kept (kept_foldl_note p group)
  unfold placeUnit
  dsimp only
  split
  · exact hnotes
  · rename_i storage hstorage
    simp only [Bool.not_false, Bool.and_true, decide_eq_true_eq]
    split
    · exact hnotes
    · rename_i hoffset
      have hle := Int.not_lt.mp hoffset
      have hlimit := bitLimit_eq (g := g) first
      have hpos := storageOf?_pos hstorage
      obtain ⟨pads, hgap, hpads, -⟩ := exists_padTo hle
      have hempty : Bits.FilledTo g names a (p.entries ++ pads) first.field storage
          { placement := p.padTo false first.field.offset } 0 :=
        ⟨[], by simp [hpads], rfl, trivial, nofun, by omega⟩
      generalize hsorted : group.mergeSort _ = sorted
      have hplaced := hempty.foldl fun m (hm : m ∈ sorted) =>
        hgroup m (List.mem_mergeSort.mp (hsorted ▸ hm))
      rw [Int.mul_comm (unitOf g first)]
      obtain ⟨unit, hentries, hfilled⟩ := hplaced.fillTo (hlimit ▸ hplaced.le) hlimit.ge
      have := Segment.append hp (hfilled.segment hstorage hgap hle)
      rw [← List.append_assoc, ← hentries] at this
      exact this

/-- All fields, unit by unit. By induction on the fields that are left. -/
theorem packed_placeFields {p : Placement} (hp : Packed g names a p) {ms : List Member}
    (hms : ∀ m ∈ ms, m.Known g a) : Packed g names a (placeFields g names false p ms) := by
  fun_induction placeFields g names false p ms with
  | case1 p => exact hp
  | case2 p m rest hbits ih =>
    obtain ⟨hm, hrest⟩ := List.forall_mem_cons.mp hms
    refine ih (packed_placeUnit hp (List.forall_mem_cons.mpr ⟨⟨hm, hbits, rfl, rfl⟩, ?_⟩)) ?_
    · intro m' hm'
      have hknown := hrest m' ((List.takeWhile_sublist _).subset hm')
      have hshares := List.mem_takeWhile_imp hm'
      simp only [sharesUnit, Bool.and_eq_true, decide_eq_true_eq] at hshares
      obtain ⟨⟨hbits', hoffset⟩, hsize⟩ := hshares
      exact ⟨hknown, hbits', hoffset, by unfold Graph.bitLimit; rw [hsize]⟩
    · exact fun m' hm' => hrest m' ((List.dropWhile_sublist _).subset hm')
  | case3 p m rest hplain ih =>
    obtain ⟨hm, hrest⟩ := List.forall_mem_cons.mp hms
    exact ih (packed_placeField hp hm (Bool.not_eq_true _ ▸ hplain)) hrest

/-! ## 5. A whole structure

Bases first, then fields by offset, then padding up to the size. -/

/-- A layout that is accepted has no base and no field that does not fit. -/
theorem layoutFault?_eq_none (h : g.layoutFault? a = none) :
    (∀ b ∈ a.bases, g.baseFault? a.size b = none) ∧
      ∀ f ∈ a.fields, g.fieldFault? a.size f = none := by
  obtain ⟨hbases, hfields⟩ := Option.or_eq_none_iff.mp h
  exact ⟨List.findSome?_eq_none_iff.mp hbases, List.findSome?_eq_none_iff.mp hfields⟩

variable (g a) in
/-- The types of bases and fields have sizes of at least zero, as far as these are known. -/
def SizedParts : Prop :=
  (∀ b ∈ a.bases, ∀ n, g.byteSize b.type = some n → 0 ≤ n) ∧
    ∀ f ∈ a.fields, ∀ n, g.byteSize f.type = some n → 0 ≤ n

/-- So what is known of every field can be used. -/
theorem known_of_mem_membersOf (hfits : g.layoutFault? a = none) (hsizes : SizedParts g a)
    {memberNames : List String} {m : Member} (hm : m ∈ membersOf memberNames a) :
    m.Known g a := by
  obtain ⟨hget, -⟩ := getElem?_of_mem_membersOf hm
  have hmem := List.mem_of_getElem? hget
  exact ⟨hget, hsizes.2 _ hmem, (layoutFault?_eq_none hfits).2 _ hmem⟩

/-- Before a structure is padded to its size. -/
theorem packed_members (hfits : g.layoutFault? a = none) (hsizes : SizedParts g a)
    (memberNames : List String) :
    Packed g names a (placeFields g names false
      (placeBases g names false {} 0 ((baseNames names [] a.bases).zip a.bases))
      (byOffset (membersOf memberNames a))) := by
  have hempty : Packed g names a {} := Segment.nil 0
  refine packed_placeFields (packed_placeBases hempty ?_ ?_) fun m hm =>
    known_of_mem_membersOf hfits hsizes (List.mem_mergeSort.mp hm)
  · intro k x hx
    obtain ⟨-, hb⟩ := List.getElem?_zip_eq_some.mp hx
    rwa [Nat.zero_add]
  · exact fun x hx => hsizes.1 x.2 (List.of_mem_zip hx).2

/-- Padding behind the last member. -/
theorem exists_finish (size : Option Int) (p : Placement) :
    ∃ pads bytes, Gap pads bytes ∧ (finish false size p).entries = p.entries ++ pads ∧
      ∀ n, size = some n → p.cursor ≤ n → bytes = n - p.cursor := by
  unfold finish
  cases size with
  | none => exact ⟨[], 0, ⟨nofun, rfl⟩, (List.append_nil _).symm, nofun⟩
  | some n =>
    by_cases hle : p.cursor ≤ n
    · obtain ⟨pads, hgap, hentries, -⟩ := exists_padTo hle
      refine ⟨pads, _, hgap, hentries, ?_⟩
      rintro _ ⟨rfl⟩ -
      rfl
    · refine ⟨[], 0, ⟨nofun, rfl⟩, ?_, ?_⟩
      · simp [Placement.padTo, Int.not_lt.mpr (Int.le_of_lt (Int.not_le.mp hle))]
      · rintro _ ⟨rfl⟩ hle'
        exact absurd hle' hle

/-- A structure ends with its last member, or with padding up to its size. -/
theorem Packed.cursor_le {p : Placement} (hp : Packed g names a p) {n : Int} (hn : 0 ≤ n)
    (hends : ∀ e ∈ p.entries, ∀ t, e.endBit? g a = some t → t ≤ 8 * n) : p.cursor ≤ n := by
  rcases hp.reached with hzero | ⟨e, he, hend⟩
  · omega
  · have := hends e he _ hend
    omega

end

/-- **Every member of a structure stands where it does natively.** For a structure whose layout
is accepted and whose bases and fields have no negative sizes, read as one packed sequence:
bases and fields begin at their bytes and bit-fields at their bits; the bit entries of a storage
unit are one run that makes up the unit; every base and field is either emitted once or has one
note; and a known size that is not negative is the length of the whole, unless something
emitted ends beyond it. -/
theorem layout_packed (g : Graph) (names : NameTable) (memberNames : List String)
    (a : Aggregate) (hstruct : a.isUnion = false) (hfits : g.layoutFault? a = none)
    (hsizes : SizedParts g a) :
    let p := layoutAs g names memberNames a
    (∀ before e after, p.entries = before ++ e :: after → e.Stands g names a (span before)) ∧
    (∀ e ∈ p.entries, ∀ f, e.bitField? a = some f → HasUnit g a 0 p.entries f) ∧
    (∀ i < a.bases.length, p.mentions (.base i) = 1) ∧
    (∀ i < a.fields.length, p.mentions (.field i) = 1) ∧
    ∀ n, a.size = some n → 0 ≤ n →
      (∀ e ∈ p.entries, ∀ t, e.endBit? g a = some t → t ≤ 8 * n) → span p.entries = 8 * n := by
  intro p
  have hp := @packed_members g names a hfits hsizes memberNames
  generalize hplaced : placeFields g names false _ _ = placed at hp
  obtain ⟨pads, bytes, hgap, hentries, hbytes⟩ := exists_finish a.size placed
  have hlayout : p.entries = placed.entries ++ pads := by
    rw [← hentries, ← hplaced, ← hstruct]
    rfl
  have hstanding : Standing g names a 0 p.entries := by
    rw [hlayout]
    exact standing_append.mpr ⟨hp.standing, hgap.standing⟩
  refine ⟨?_, ?_, fun i => mentions_base g names memberNames,
    fun i => mentions_field g names memberNames, ?_⟩
  · intro before e after hsplit
    have := hstanding.stands hsplit
    rwa [Int.zero_add] at this
  · intro e he f hf
    rw [hlayout] at he ⊢
    rcases List.mem_append.mp he with he | he
    · refine HasUnit.append (hp.units e he f hf).1 fun e' he' f' hf' => ?_
      exact (hgap.bitField? e' he' f' hf').elim
    · exact (hgap.bitField? e he f hf).elim
  · intro n hsize hn hends
    have hle := hp.cursor_le hn fun e he =>
      hends e (hlayout ▸ List.mem_append_left _ he)
    have hspan := hp.filled
    rw [hlayout, span_append, hgap.filled, hspan, hbytes n hsize hle]
    omega

/-- A structure of twelve bytes: two bit-fields of one unit, with a gap between them and one
behind, and a byte at offset eight. -/
def gapped : Graph × Aggregate :=
  (⟨#[.primitive .uint32, .primitive .uint8]⟩,
    ⟨"Flags", "", some 12, false, none, [],
      [⟨"tag", 1, 8, none, none, false⟩, ⟨"high", 0, 0, some 4, some 5, false⟩,
        ⟨"low", 0, 0, none, some 3, false⟩], .complete, false⟩)

theorem sizes_gapped : gapped.1.byteSize 0 = some 4 ∧ gapped.1.byteSize 1 = some 1 := by
  simp [Graph.byteSize, gapped, Graph.get, Primitive.size]

/-- The entries of `gapped`, the third field first. -/
theorem entries_gapped : (layoutAs gapped.1 [] ["tag", "high", "low"] gapped.2).entries =
    [.bits 2 "low" "ctypes.c_uint32" 3,
      .filler ⟨"high", 0, 0, some 4, some 5, false⟩ 0 "ctypes.c_uint32" 1,
      .bits 1 "high" "ctypes.c_uint32" 5,
      .filler ⟨"high", 0, 0, some 4, some 5, false⟩ 1 "ctypes.c_uint32" 23,
      .padding "_pad0" 4, .field 0 "tag" (.given "ctypes.c_uint8") 1, .padding "_pad1" 3] := by
  have htype : typeOf? gapped.1 [] 1 = some (.given "ctypes.c_uint8") := by
    simp [typeOf?, gapped, Graph.get, primitiveText]
  have hsizes := sizes_gapped
  have hpads : Placement.padName 0 = "_pad0" ∧ Placement.padName 1 = "_pad1" := by decide
  generalize gapped.1 = g at *
  simp [layoutAs, gapped, membersOf, byOffset, List.mergeSort, placeBases, baseNames, placeFields,
    placeField, sharesUnit, placeUnit, unitOf, storageOf?, placeBit, Bits.fillTo, finish,
    FieldPart.isBitField, Placement.padTo, Placement.add, Placement.moveTo, htype, hsizes, hpads]

theorem layout_packed_gapped :
    SizedParts gapped.1 gapped.2 ∧
    (layoutAs gapped.1 [] ["tag", "high", "low"] gapped.2).mentions (.field 1) = 1 ∧
    span (layoutAs gapped.1 [] ["tag", "high", "low"] gapped.2).entries = 8 * 12 := by
  obtain ⟨hword, hbyte⟩ := sizes_gapped
  have hsizes : SizedParts gapped.1 gapped.2 := by
    generalize gapped.1 = g at *
    simp [SizedParts, gapped, hword, hbyte]
  have hends : ∀ e ∈ (layoutAs gapped.1 [] ["tag", "high", "low"] gapped.2).entries,
      ∀ t, e.endBit? gapped.1 gapped.2 = some t → t ≤ 8 * 12 := by
    rw [entries_gapped]
    generalize gapped.1 = g at *
    simp [gapped, Entry.endBit?, Entry.bitField?, Graph.bitLimit, hword]
  have hfits : gapped.1.layoutFault? gapped.2 = none := by
    generalize gapped.1 = g at *
    simp [gapped, Graph.layoutFault?, Graph.fieldFault?, Graph.fieldFits, Graph.bitsFit,
      Graph.bitLimit, hword]
  obtain ⟨-, -, -, hfields, htotal⟩ :=
    layout_packed gapped.1 [] ["tag", "high", "low"] gapped.2 rfl hfits hsizes
  exact ⟨hsizes, hfields 1 (by decide), htotal 12 rfl (by decide) hends⟩

/-- A negative size is not the length of anything: a structure of minus four bytes without
members is accepted, and nothing is emitted for it. -/
theorem exists_unpadded :
    let a : Aggregate := ⟨"S", "", some (-4), false, none, [], [], .complete, false⟩
    let p := layoutAs {} [] [] a
    ({} : Graph).layoutFault? a = none ∧ SizedParts {} a ∧
      (∀ e ∈ p.entries, ∀ t, e.endBit? {} a = some t → t ≤ 8 * (-4)) ∧
      span p.entries ≠ 8 * (-4) := by
  have hentries : (layoutAs {} [] []
      ⟨"S", "", some (-4), false, none, [], [], .complete, false⟩).entries = [] := by
    simp [layoutAs, membersOf, byOffset, placeBases, baseNames, placeFields, finish,
      Placement.padTo]
  dsimp only
  rw [hentries]
  exact ⟨rfl, ⟨fun _ hb => absurd hb List.not_mem_nil, fun _ hf => absurd hf List.not_mem_nil⟩,
    fun _ he => absurd he List.not_mem_nil, by decide⟩

end NativeTypes.Ctypes
