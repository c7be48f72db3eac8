/-
NativeTypes.Proofs.Writer.Steps — what one step of the layout does.

A base, a field or the bit-fields of one storage unit are either left out, with
no more than notes (`Kept`), or they get entries at their offset, with padding
in front (`Placed`). The entries of a unit are its bit-fields and fillers that
are numbered from zero (`StorageUnit`). Each of the three steps is inverted
once, with the reason for what it does; the runs over bases and fields follow
by induction. What an entry can be made from in a whole layout is said by
`Entry.Made`.

Whatever is shown of layouts elsewhere is shown along these steps: where
members stand, how many entries each has, what names entries have and how wide
a union is. Each of these is an invariant that `Kept` keeps and that `Placed`
keeps under a condition on the new entries. So the conditions of the two
relations say all that a step can be asked: what was noted and for which
reason, what was appended, where it starts, and where the cursor goes.
-/
import NativeTypes.Proofs.Writer.Accounts

namespace NativeTypes.Ctypes

namespace Entry

/-- The name of a padding. -/
def padding? : Entry → Option String
  | padding name _ => some name
  | base .. | field .. | bits .. | filler .. => none

/-- The bit-field that the unit of a filler starts with, and the number of the filler. -/
def gap? : Entry → Option (FieldPart × Nat)
  | filler first number _ _ => some (first, number)
  | padding .. | base .. | field .. | bits .. => none

end Entry

/-- Nothing is placed. -/
structure Kept (p p' : Placement) : Prop where
  entries : p'.entries = p.entries
  pads : p'.pads = p.pads
  cursor : p'.cursor = p.cursor

/-- Entries are placed at an offset, with padding in front; what comes next goes to `stop`. -/
structure Placed (isUnion : Bool) (p : Placement) (offset : Int) (es : List Entry) (stop : Int)
    (p' : Placement) : Prop where
  entries : p'.entries = (p.padTo isUnion offset).entries ++ es
  pads : p'.pads = (p.padTo isUnion offset).pads
  cursor : p'.cursor = stop

/-- The storage types that there are. -/
theorem storageOf?_cases {bytes : Int} {storage : String} (h : storageOf? bytes = some storage) :
    (bytes = 1 ∧ storage = "ctypes.c_uint8") ∨ (bytes = 2 ∧ storage = "ctypes.c_uint16") ∨
      (bytes = 4 ∧ storage = "ctypes.c_uint32") ∨ (bytes = 8 ∧ storage = "ctypes.c_uint64") := by
  grind [storageOf?]

theorem storageOf?_pos {bytes : Int} {storage : String} (h : storageOf? bytes = some storage) :
    0 < bytes := by
  have := storageOf?_cases h
  omega

/-- What does not overlap in a structure starts at the cursor or behind it. -/
theorem cursor_le_of_not_overlaps {isUnion : Bool} {cursor offset : Int}
    (h : ¬ (decide (offset < cursor) && !isUnion) = true) (hstruct : isUnion = false) :
    cursor ≤ offset := by
  simpa [hstruct] using h

/-! ## 1. The entries of a storage unit

A unit is filled from its first bit on, with a filler wherever the next bit-field starts later.
The loop keeps its own list of entries and its own count of fillers, which start anew with each
unit; `Bits.Within` relates them to the placement around it. -/

/-- The entries of a unit: bit-fields of a group, and so many fillers. -/
structure StorageUnit (first : FieldPart) (storage : String) (group : List Member)
    (unit : List Entry) (fillers : Nat) : Prop where
  each : ∀ e ∈ unit, (∃ k width, e = .filler first k storage width) ∨
    ∃ m ∈ group, ∃ width, e = .bits m.index m.name storage width
  gaps : unit.filterMap Entry.gap? = (List.range fillers).map fun k => (first, k)

/-- Behind the entries of `p` the bits of a unit are placed. -/
structure Bits.Within (p : Placement) (first : FieldPart) (storage : String)
    (group : List Member) (b : Bits) (unit : List Entry) : Prop where
  numbered : StorageUnit first storage group unit b.fillers
  entries : b.placement.entries = p.entries ++ unit
  pads : b.placement.pads = p.pads
  started : unit = [] → b.bit = 0

section

variable {first : FieldPart} {storage : String} {group : List Member} {unit : List Entry}

theorem StorageUnit.addFiller {n : Nat} (h : StorageUnit first storage group unit n)
    (width : Int) :
    StorageUnit first storage group (unit ++ [.filler first n storage width]) (n + 1) where
  each := List.forall_mem_append.mpr
    ⟨h.each, List.forall_mem_singleton.mpr (.inl ⟨n, width, rfl⟩)⟩
  gaps := by simp [h.gaps, List.range_succ, Entry.gap?]

theorem StorageUnit.addBits {n : Nat} (h : StorageUnit first storage group unit n) {m : Member}
    (hm : m ∈ group) (width : Int) :
    StorageUnit first storage group (unit ++ [.bits m.index m.name storage width]) n where
  each := List.forall_mem_append.mpr
    ⟨h.each, List.forall_mem_singleton.mpr (.inr ⟨m, hm, width, rfl⟩)⟩
  gaps := by simp [h.gaps, Entry.gap?]

theorem StorageUnit.paddings {n : Nat} (h : StorageUnit first storage group unit n) :
    unit.filterMap Entry.padding? = [] := by
  refine List.filterMap_eq_nil_iff.mpr fun e he => ?_
  rcases h.each e he with ⟨k, width, rfl⟩ | ⟨m, -, width, rfl⟩ <;> rfl

namespace Bits.Within

variable {p : Placement} {b : Bits} (h : b.Within p first storage group unit)
include h

/-- A filler up to a bit, or nothing if that bit is next. -/
theorem fillTo (bit : Int) :
    ∃ unit', (b.fillTo storage first bit).Within p first storage group unit' ∧
      (0 < bit → unit' ≠ []) := by
  unfold Bits.fillTo
  split
  · rename_i hlt
    refine ⟨unit ++ [.filler first b.fillers storage (bit - b.bit)],
      ⟨h.numbered.addFiller _, ?_, h.pads, by simp⟩, by simp⟩
    simp [Placement.add, h.entries]
  · rename_i hge
    refine ⟨unit, h, fun hpos hnil => ?_⟩
    have := h.started hnil
    omega

/-- One bit-field, unless it overlaps. -/
theorem placeBit {m : Member} (hm : m ∈ group) :
    ∃ unit', (Ctypes.placeBit storage first b m).Within p first storage group unit' := by
  unfold Ctypes.placeBit
  dsimp only
  split
  · exact ⟨unit, h.numbered, h.entries, h.pads, h.started⟩
  · obtain ⟨unit', hfilled, -⟩ := h.fillTo (m.field.bitOffset.getD 0)
    refine ⟨unit' ++ [.bits m.index m.name storage (m.field.bitWidth.getD 0)],
      hfilled.numbered.addBits hm _, ?_, hfilled.pads, by simp⟩
    simp [Placement.add, hfilled.entries]

/-- All bit-fields of the group. -/
theorem foldl {ms : List Member} (hms : ∀ m ∈ ms, m ∈ group) :
    ∃ unit', (ms.foldl (Ctypes.placeBit storage first) b).Within p first storage group unit' := by
  induction ms generalizing b unit with
  | nil => exact ⟨unit, h⟩
  | cons m ms ih =>
    obtain ⟨hm, hms⟩ := List.forall_mem_cons.mp hms
    obtain ⟨unit', hplaced⟩ := h.placeBit hm
    exact ih hplaced hms

end Bits.Within

end

/-! ## 2. The three steps -/

section

variable (g : Graph) (names : NameTable) (isUnion : Bool) (p : Placement)

/-- A base is placed if its type has a layout and a size, and it does not overlap what stands
before it. -/
theorem placeBase_step (index : Nat) (name : String) (b : BasePart) :
    let p' := placeBase g names isUnion p index name b
    (Kept p p' ∧
      (typeOf? g names b.type = none ∨ g.byteSize b.type = none ∨ b.offset < p.cursor)) ∨
    ∃ type size, typeOf? g names b.type = some type ∧ g.byteSize b.type = some size ∧
      p.cursor ≤ b.offset ∧
      Placed isUnion p b.offset [.base index name type size] (b.offset + size) p' := by
  intro p'
  simp only [p', placeBase]
  cases htype : typeOf? g names b.type with
  | none => exact .inl ⟨⟨rfl, rfl, rfl⟩, .inl rfl⟩
  | some type =>
    cases hsize : g.byteSize b.type with
    | none => exact .inl ⟨⟨rfl, rfl, rfl⟩, .inr (.inl rfl)⟩
    | some size =>
      dsimp only
      split
      · rename_i hlt
        exact .inl ⟨⟨rfl, rfl, rfl⟩, .inr (.inr hlt)⟩
      · rename_i hle
        exact .inr ⟨type, size, rfl, rfl, Int.not_lt.mp hle, rfl, rfl, rfl⟩

/-- A field that is no bit-field is placed if its type has a layout, and a size or the shape of
an array; in a union at its start, in a structure behind what stands before it. -/
theorem placeField_step (m : Member) :
    let p' := placeField g names isUnion p m
    (Kept p p' ∧ (typeOf? g names m.field.type = none ∨
      (g.byteSize m.field.type = none ∧ isArray g m.field.type = false) ∨
      (isUnion = true ∧ m.field.offset ≠ 0) ∨ (isUnion = false ∧ m.field.offset < p.cursor))) ∨
    ∃ type, typeOf? g names m.field.type = some type ∧
      (g.byteSize m.field.type = none → isArray g m.field.type = true) ∧
      (isUnion = true → m.field.offset = 0) ∧ (isUnion = false → p.cursor ≤ m.field.offset) ∧
      Placed isUnion p m.field.offset
        [.field m.index m.name type ((g.byteSize m.field.type).getD 0)]
        (m.field.offset + (g.byteSize m.field.type).getD 0) p' := by
  intro p'
  simp only [p', placeField]
  cases htype : typeOf? g names m.field.type with
  | none => exact .inl ⟨⟨rfl, rfl, rfl⟩, .inl rfl⟩
  | some type =>
    dsimp only
    split
    · rename_i hunsized
      simp only [Bool.and_eq_true, Option.isNone_iff_eq_none, Bool.not_eq_true'] at hunsized
      exact .inl ⟨⟨rfl, rfl, rfl⟩, .inr (.inl hunsized)⟩
    · rename_i hsized
      simp only [Bool.and_eq_true, Option.isNone_iff_eq_none, Bool.not_eq_true', not_and,
        Bool.not_eq_false] at hsized
      split
      · rename_i hinside
        simp only [Bool.and_eq_true, bne_iff_ne] at hinside
        exact .inl ⟨⟨rfl, rfl, rfl⟩, .inr (.inr (.inl hinside))⟩
      · rename_i hstart
        simp only [Bool.and_eq_true, bne_iff_ne, not_and, not_not] at hstart
        split
        · rename_i hlt
          simp only [Bool.and_eq_true, decide_eq_true_eq, Bool.not_eq_true'] at hlt
          exact .inl ⟨⟨rfl, rfl, rfl⟩, .inr (.inr (.inr ⟨hlt.2, hlt.1⟩))⟩
        · rename_i hle
          exact .inr ⟨type, rfl, hsized, hstart, cursor_le_of_not_overlaps hle, rfl, rfl, rfl⟩

/-- Bit-fields without a layout are noted one by one. -/
theorem kept_foldl_note (group : List Member) :
    Kept p (group.foldl (fun p m => p.note (.bitsNoLayout m.index m.field.name)) p) := by
  induction group generalizing p with
  | nil => exact ⟨rfl, rfl, rfl⟩
  | cons m group ih =>
    have hkept := ih (p.note (.bitsNoLayout m.index m.field.name))
    exact ⟨hkept.entries, hkept.pads, hkept.cursor⟩

/-- The bit-fields of a unit are placed together if there is a storage type for it, and it does
not overlap what stands before it in a structure. -/
theorem placeUnit_step (first : Member) (group : List Member) :
    let p' := placeUnit g isUnion p first group
    (Kept p p' ∧ (storageOf? (unitOf g first) = none ∨
      (isUnion = false ∧ first.field.offset < p.cursor))) ∨
    ∃ storage unit fillers, storageOf? (unitOf g first) = some storage ∧ unit ≠ [] ∧
      (isUnion = false → p.cursor ≤ first.field.offset) ∧
      StorageUnit first.field storage group unit fillers ∧
      Placed isUnion p first.field.offset unit (first.field.offset + unitOf g first) p' := by
  intro p'
  simp only [p', placeUnit]
  cases hstorage : storageOf? (unitOf g first) with
  | none => exact .inl ⟨kept_foldl_note p group, .inl rfl⟩
  | some storage =>
    dsimp only
    split
    · rename_i hlt
      simp only [Bool.and_eq_true, decide_eq_true_eq, Bool.not_eq_true'] at hlt
      exact .inl ⟨kept_foldl_note p group, .inr ⟨hlt.2, hlt.1⟩⟩
    · rename_i hle
      have hempty : Bits.Within (p.padTo isUnion first.field.offset) first.field storage group
          { placement := p.padTo isUnion first.field.offset } [] :=
        ⟨⟨nofun, rfl⟩, (List.append_nil _).symm, rfl, fun _ => rfl⟩
      obtain ⟨unit, hplaced⟩ := hempty.foldl fun m hm => List.mem_mergeSort.mp hm
      obtain ⟨unit', hfilled, hne⟩ := hplaced.fillTo (unitOf g first * 8)
      have hpos := storageOf?_pos hstorage
      exact .inr ⟨storage, unit', _, rfl, hne (by omega), cursor_le_of_not_overlaps hle,
        hfilled.numbered, hfilled.entries, hfilled.pads, rfl⟩

/-- Padding is put in front, or nothing is. -/
theorem padTo_step (offset : Int) :
    p.padTo isUnion offset = p ∨
    (isUnion = false ∧ p.cursor < offset ∧ p.padTo isUnion offset =
      { p with
        entries := p.entries ++ [.padding (Placement.padName p.pads) (offset - p.cursor)]
        pads := p.pads + 1, cursor := offset }) := by
  unfold Placement.padTo
  split
  · rename_i hlt
    simp only [Bool.and_eq_true, decide_eq_true_eq, Bool.not_eq_true'] at hlt
    exact .inr ⟨hlt.2, hlt.1, rfl⟩
  · exact .inl rfl

/-- A structure is padded to its size; a union is one padding if there is nothing else. -/
theorem finish_step (size : Option Int) :
    finish isUnion size p = p ∨ (∃ n, finish isUnion size p = p.padTo isUnion n) ∨
    (isUnion = true ∧ p.entries = [] ∧ p.cursor = 0 ∧ ∃ n, size = some n ∧ n ≠ 0 ∧
      finish isUnion size p = p.add (.padding (Placement.padName 0) n)) := by
  unfold finish
  cases size with
  | none => exact .inl rfl
  | some n =>
    dsimp only
    split
    · rename_i hunion
      split
      · rename_i hempty
        simp only [Bool.and_eq_true, decide_eq_true_eq, List.isEmpty_iff, bne_iff_ne] at hempty
        exact .inr (.inr ⟨hunion, hempty.1.2, hempty.1.1, n, rfl, hempty.2, rfl⟩)
      · exact .inl rfl
    · exact .inr (.inl ⟨n, rfl⟩)

end

/-! ## 3. What entries are made from -/

theorem getElem?_of_mem_membersOf {members : List String} {a : Aggregate} {m : Member}
    (h : m ∈ membersOf members a) :
    a.fields[m.index]? = some m.field ∧ m.name = members.getD m.index "" := by
  obtain ⟨⟨f, i⟩, hf, rfl⟩ := List.mem_map.mp h
  exact ⟨List.mem_zipIdx_iff_getElem?.mp hf, rfl⟩

/-- What an entry can be made from, for the given bases and members. -/
inductive Entry.Made (g : Graph) (names : NameTable) (bs : List (String × BasePart))
    (ms : List Member) : Entry → Prop
  | padding (n : Nat) (bytes : Int) : Made g names bs ms (.padding (Placement.padName n) bytes)
  | base {i : Nat} {name : String} {b : BasePart} {type : TypeExpression} {size : Int} :
    bs[i]? = some (name, b) → typeOf? g names b.type = some type →
    g.byteSize b.type = some size → Made g names bs ms (.base i name type size)
  | field {m : Member} {type : TypeExpression} {bytes : Int} :
    m ∈ ms → m.field.isBitField = false → typeOf? g names m.field.type = some type →
    Made g names bs ms (.field m.index m.name type bytes)
  | bits {m : Member} {storage : String} {width : Int} :
    m ∈ ms → Made g names bs ms (.bits m.index m.name storage width)
  | filler {m : Member} {k : Nat} {storage : String} {width : Int} :
    m ∈ ms → Made g names bs ms (.filler m.field k storage width)

section

variable {g : Graph} {names : NameTable} {isUnion : Bool} {bs : List (String × BasePart)}
  {all : List Member} {p p' : Placement}

theorem Kept.made (h : Kept p p') (hp : ∀ e ∈ p.entries, e.Made g names bs all) :
    ∀ e ∈ p'.entries, e.Made g names bs all := by
  rwa [h.entries]

theorem made_padTo (hp : ∀ e ∈ p.entries, e.Made g names bs all) (offset : Int) :
    ∀ e ∈ (p.padTo isUnion offset).entries, e.Made g names bs all := by
  rcases padTo_step isUnion p offset with hsame | ⟨-, -, hpadded⟩
  · rwa [hsame]
  · rw [hpadded]
    exact List.forall_mem_append.mpr ⟨hp, List.forall_mem_singleton.mpr (.padding _ _)⟩

theorem Placed.made {offset stop : Int} {es : List Entry}
    (h : Placed isUnion p offset es stop p') (hp : ∀ e ∈ p.entries, e.Made g names bs all)
    (hes : ∀ e ∈ es, e.Made g names bs all) : ∀ e ∈ p'.entries, e.Made g names bs all := by
  rw [h.entries]
  exact List.forall_mem_append.mpr ⟨made_padTo hp offset, hes⟩

theorem StorageUnit.made {first : Member} {storage : String} {group : List Member}
    {unit : List Entry} {fillers : Nat}
    (h : StorageUnit first.field storage group unit fillers) (hfirst : first ∈ all)
    (hgroup : ∀ m ∈ group, m ∈ all) : ∀ e ∈ unit, e.Made g names bs all := by
  intro e he
  rcases h.each e he with ⟨k, width, rfl⟩ | ⟨m, hm, width, rfl⟩
  · exact .filler hfirst
  · exact .bits (hgroup m hm)

/-- Bases, by induction on those that are left. -/
theorem made_placeBases (hp : ∀ e ∈ p.entries, e.Made g names bs all) {index : Nat}
    {rest : List (String × BasePart)} (hrest : ∀ k x, rest[k]? = some x → bs[index + k]? = some x) :
    ∀ e ∈ (placeBases g names isUnion p index rest).entries, e.Made g names bs all := by
  induction rest generalizing p index with
  | nil => exact hp
  | cons x rest ih =>
    obtain ⟨name, b⟩ := x
    rw [placeBases]
    refine ih ?_ fun k y hy => ?_
    · rcases placeBase_step g names isUnion p index name b with
        ⟨hkept, -⟩ | ⟨type, size, htype, hsize, -, hplaced⟩
      · exact hkept.made hp
      · exact hplaced.made hp (List.forall_mem_singleton.mpr (.base (hrest 0 _ rfl) htype hsize))
    · have := hrest (k + 1) y hy
      rwa [Nat.add_comm k 1, ← Nat.add_assoc] at this

/-- Fields, unit by unit. -/
theorem made_placeFields {ms : List Member} (hp : ∀ e ∈ p.entries, e.Made g names bs all)
    (hms : ∀ m ∈ ms, m ∈ all) :
    ∀ e ∈ (placeFields g names isUnion p ms).entries, e.Made g names bs all := by
  fun_induction placeFields g names isUnion p ms with
  | case1 p => exact hp
  | case2 p m rest _ ih =>
    obtain ⟨hm, hrest⟩ := List.forall_mem_cons.mp hms
    have hgroup : ∀ x ∈ rest.takeWhile (sharesUnit g m), x ∈ all := fun x hx =>
      hrest x ((List.takeWhile_sublist _).subset hx)
    refine ih ?_ fun x hx => hrest x ((List.dropWhile_sublist _).subset hx)
    rcases placeUnit_step g isUnion p m (m :: rest.takeWhile (sharesUnit g m)) with
      ⟨hkept, -⟩ | ⟨storage, unit, fillers, -, -, -, hunit, hplaced⟩
    · exact hkept.made hp
    · exact hplaced.made hp (hunit.made hm (List.forall_mem_cons.mpr ⟨hm, hgroup⟩))
  | case3 p m rest hplain ih =>
    obtain ⟨hm, hrest⟩ := List.forall_mem_cons.mp hms
    refine ih ?_ hrest
    rcases placeField_step g names isUnion p m with ⟨hkept, -⟩ | ⟨type, htype, -, -, -, hplaced⟩
    · exact hkept.made hp
    · exact hplaced.made hp
        (List.forall_mem_singleton.mpr (.field hm (Bool.not_eq_true _ ▸ hplain) htype))

theorem made_finish (hp : ∀ e ∈ p.entries, e.Made g names bs all) (size : Option Int) :
    ∀ e ∈ (finish isUnion size p).entries, e.Made g names bs all := by
  rcases finish_step isUnion p size with hsame | ⟨n, hpadded⟩ | ⟨-, -, -, n, -, -, hadded⟩
  · rwa [hsame]
  · rw [hpadded]
    exact made_padTo hp n
  · rw [hadded]
    exact List.forall_mem_append.mpr ⟨hp, List.forall_mem_singleton.mpr (.padding 0 n)⟩

/-- **Every entry of a layout is padding, or made from a base or a field.** -/
theorem made_layoutAs (g : Graph) (names : NameTable) (memberNames : List String)
    (a : Aggregate) : ∀ e ∈ (layoutAs g names memberNames a).entries,
      e.Made g names ((baseNames names [] a.bases).zip a.bases) (membersOf memberNames a) := by
  refine made_finish (made_placeFields
    (made_placeBases (fun _ he => absurd he List.not_mem_nil) fun k x hx => ?_) fun m hm => ?_) _
  · rwa [Nat.zero_add]
  · exact List.mem_mergeSort.mp hm

end

end NativeTypes.Ctypes
