/-
NativeTypes.Proofs.Writer.UnionWidth — how wide the members of a union are.

All entries of a union start at its first byte, so it is as wide as the widest
of them. Nothing is put in front of an entry, and whether a base or field gets
one can be told from the declaration (`memberWidths`): a union has the widths
of its parts, whatever order they are placed in. It is padded to its size only
if it has no entry at all. So a union keeps its size exactly if some member
fills it, or none is placed (`widest_layoutAs`); one whose size is more than
its members need becomes narrower.

The widths are compared as sets. Fields are placed by offset and bit-fields of
one unit together, so the entries come in another order than the fields and
there are fewer of them; but a width that is there once is there, and the
widest of some widths does not depend on their order or number
(`widest_congr`). So the lemmas on steps are equivalences about membership.

The cursor is kept for a union as for a structure, though nothing is placed by
it. It does decide whether a base overlaps what stands before it, and whether
an empty union is padded, which is why it appears in the widths of bases.
-/
import Mathlib.Data.List.TakeWhile
import NativeTypes.Proofs.Writer.Steps
import NativeTypes.Resolver.Layout

namespace NativeTypes.Ctypes

/-! ## 1. The widest of some widths -/

/-- The width of the widest, nothing if there is none. -/
def widest (ws : List Int) : Int := ws.foldr max 0

theorem widest_le_iff {ws : List Int} {n : Int} : widest ws ≤ n ↔ 0 ≤ n ∧ ∀ w ∈ ws, w ≤ n := by
  induction ws with
  | nil => simp [widest]
  | cons w ws ih =>
    have hcons : widest (w :: ws) = max w (widest ws) := rfl
    rw [hcons, Int.max_le, ih, List.forall_mem_cons]
    exact and_left_comm

/-- The widest is as wide as any. -/
theorem le_widest {ws : List Int} {w : Int} (h : w ∈ ws) : w ≤ widest ws :=
  (widest_le_iff.mp (Int.le_refl _)).2 w h

/-- The order and number of the widths do not matter. -/
theorem widest_congr {ws ws' : List Int} (h : ∀ w, w ∈ ws ↔ w ∈ ws') :
    widest ws = widest ws' := by
  refine eq_of_forall_ge_iff fun n => ?_
  simp only [widest_le_iff, h]

theorem widest_eq_iff {ws : List Int} {n : Int} (hn : 0 ≤ n) (hle : ∀ w ∈ ws, w ≤ n) :
    widest ws = n ↔ n = 0 ∨ n ∈ ws := by
  have hbound : widest ws ≤ n := widest_le_iff.mpr ⟨hn, hle⟩
  have hzero : 0 ≤ widest ws := (widest_le_iff.mp (Int.le_refl _)).1
  constructor
  · intro heq
    by_contra hno
    rw [not_or] at hno
    have hless : widest ws ≤ n - 1 := by
      refine widest_le_iff.mpr ⟨by omega, fun w hw => ?_⟩
      have hne : w ≠ n := fun h => hno.2 (h ▸ hw)
      have := hle w hw
      omega
    omega
  · rintro (rfl | hmem)
    · omega
    · have := le_widest hmem
      omega

/-! ## 2. Widths of members -/

/-- How many bytes a storage type has. -/
def storageBytes (storage : String) : Int :=
  if storage = "ctypes.c_uint8" then 1
  else if storage = "ctypes.c_uint16" then 2
  else if storage = "ctypes.c_uint32" then 4
  else if storage = "ctypes.c_uint64" then 8
  else 0

theorem storageBytes_eq {bytes : Int} {storage : String} (h : storageOf? bytes = some storage) :
    storageBytes storage = bytes := by
  rcases storageOf?_cases h with ⟨rfl, rfl⟩ | ⟨rfl, rfl⟩ | ⟨rfl, rfl⟩ | ⟨rfl, rfl⟩ <;>
    simp [storageBytes]

/-- How many bytes an entry takes where all start at one place; bits take their storage unit. -/
def Entry.bytes : Entry → Int
  | padding _ n | base _ _ _ n | field _ _ _ n => n
  | bits _ _ storage _ | filler _ _ storage _ => storageBytes storage

section

variable (g : Graph) (names : NameTable)

/-- The width of a base of a union, if it gets an entry behind the bases up to a cursor. -/
def baseWidth? (cursor : Int) (b : BasePart) : Option Int :=
  if (typeOf? g names b.type).isSome && cursor ≤ b.offset then g.byteSize b.type else none

/-- The widths of the bases of a union that get entries. -/
def baseWidths (cursor : Int) : List BasePart → List Int
  | [] => []
  | b :: bs =>
    match baseWidth? g names cursor b with
    | some width => width :: baseWidths (b.offset + width) bs
    | none => baseWidths cursor bs

/-- The width of a field of a union, if it gets an entry; bit-fields get one with their storage
unit. -/
def fieldWidth? (f : FieldPart) : Option Int :=
  if f.isBitField then
    let unit := unitOf g ⟨0, f.name, f⟩
    (storageOf? unit).map fun _ => unit
  else if (typeOf? g names f.type).isSome && ((g.byteSize f.type).isSome || isArray g f.type) &&
      f.offset = 0 then
    some ((g.byteSize f.type).getD 0)
  else none

/-- The widths of the bases and fields of a union that get entries. -/
def memberWidths (a : Aggregate) : List Int :=
  baseWidths g names 0 a.bases ++ a.fields.filterMap (fieldWidth? g names)

end

/-! ## 3. What is placed -/

section

variable {p p' : Placement}

/-- A union has no padding between its members. -/
theorem Placed.entries_union {offset stop : Int} {es : List Entry}
    (h : Placed true p offset es stop p') : p'.entries = p.entries ++ es := by
  simpa [Placement.padTo] using h.entries

/-- Before anything is placed, the cursor is at the start. -/
def Unmoved (p : Placement) : Prop := p.entries = [] → p.cursor = 0

/-- What is left out moves nothing. -/
theorem Kept.unmoved (h : Kept p p') (hp : Unmoved p) : Unmoved p' := by
  intro hnone
  rw [h.cursor]
  exact hp (h.entries ▸ hnone)

/-- Once something was placed there is an entry. -/
theorem Placed.unmoved {isUnion : Bool} {offset stop : Int} {es : List Entry}
    (h : Placed isUnion p offset es stop p') (hne : es ≠ []) : Unmoved p' := by
  intro hnone
  rw [h.entries, List.append_eq_nil_iff] at hnone
  exact absurd hnone.2 hne

variable (g : Graph) (names : NameTable)

/-- The entries of a unit are as wide as its storage type. -/
theorem StorageUnit.mem_bytes {first : Member} {storage : String} {group : List Member}
    {unit : List Entry} {n : Nat} (h : StorageUnit first.field storage group unit n)
    (hstorage : storageOf? (unitOf g first) = some storage) (hne : unit ≠ []) (w : Int) :
    w ∈ unit.map Entry.bytes ↔ w = unitOf g first := by
  have hbytes : ∀ e ∈ unit, e.bytes = unitOf g first := by
    intro e he
    rw [← storageBytes_eq hstorage]
    rcases h.each e he with ⟨k, width, rfl⟩ | ⟨m, -, width, rfl⟩ <;> rfl
  obtain ⟨e, he⟩ := List.exists_mem_of_ne_nil unit hne
  rw [List.mem_map]
  constructor
  · rintro ⟨x, hx, rfl⟩
    exact hbytes x hx
  · rintro rfl
    exact ⟨e, he, hbytes e he⟩

/-- **Bases are as wide as their types**, as far as they are placed. -/
theorem bytes_placeBases (hp : Unmoved p) (index : Nat) (bs : List (String × BasePart)) :
    Unmoved (placeBases g names true p index bs) ∧
      (placeBases g names true p index bs).entries.map Entry.bytes =
        p.entries.map Entry.bytes ++ baseWidths g names p.cursor (bs.map Prod.snd) := by
  induction bs generalizing p index with
  | nil => exact ⟨hp, (List.append_nil _).symm⟩
  | cons x bs ih =>
    obtain ⟨name, b⟩ := x
    rw [placeBases, List.map_cons, baseWidths]
    rcases placeBase_step g names true p index name b with
      ⟨hkept, hwhy⟩ | ⟨type, size, htype, hsize, hle, hplaced⟩
    · have hnone : baseWidth? g names p.cursor b = none := by
        rcases hwhy with htype | hsize | hlt
        · simp [baseWidth?, htype]
        · simp [baseWidth?, hsize]
        · simp [baseWidth?, Int.not_le.mpr hlt]
      have hrest := ih (hkept.unmoved hp) (index + 1)
      rw [hkept.entries, hkept.cursor] at hrest
      simpa only [hnone] using hrest
    · have hsome : baseWidth? g names p.cursor b = some size := by
        simp [baseWidth?, htype, hsize, hle]
      have hrest := ih (hplaced.unmoved (List.cons_ne_nil _ _)) (index + 1)
      rw [hplaced.entries_union, hplaced.cursor] at hrest
      simpa [hsome, Entry.bytes] using hrest

/-- A field of a union gets an entry of its width, or none. -/
theorem mem_bytes_placeField {m : Member} (hplain : m.field.isBitField = false) (w : Int) :
    w ∈ (placeField g names true p m).entries.map Entry.bytes ↔
      w ∈ p.entries.map Entry.bytes ∨ fieldWidth? g names m.field = some w := by
  rcases placeField_step g names true p m with
    ⟨hkept, hwhy⟩ | ⟨type, htype, hsized, hstart, -, hplaced⟩
  · have hnone : fieldWidth? g names m.field = none := by
      rcases hwhy with htype | ⟨hsize, harray⟩ | ⟨-, hoffset⟩ | ⟨hstruct, -⟩
      · simp [fieldWidth?, hplain, htype]
      · simp [fieldWidth?, hplain, hsize, harray]
      · simp [fieldWidth?, hplain, hoffset]
      · cases hstruct
    simp [hkept.entries, hnone]
  · have hsome : fieldWidth? g names m.field = some ((g.byteSize m.field.type).getD 0) := by
      have hknown : (g.byteSize m.field.type).isSome || isArray g m.field.type := by
        cases hsize : g.byteSize m.field.type with
        | none => simp [hsized hsize]
        | some n => rfl
      simp only [fieldWidth?, hplain, htype, hknown, hstart rfl]
      simp
    simp [hplaced.entries_union, hsome, Entry.bytes, eq_comm]

/-- The bit-fields of a unit get entries of its width, or none. -/
theorem mem_bytes_placeUnit {m : Member} (hbits : m.field.isBitField = true)
    (group : List Member) (w : Int) :
    w ∈ (placeUnit g true p m group).entries.map Entry.bytes ↔
      w ∈ p.entries.map Entry.bytes ∨ fieldWidth? g names m.field = some w := by
  have hunit : unitOf g ⟨0, m.field.name, m.field⟩ = unitOf g m := rfl
  rcases placeUnit_step g true p m group with
    ⟨hkept, hwhy⟩ | ⟨storage, unit, n, hstorage, hne, -, hentries, hplaced⟩
  · have hnone : fieldWidth? g names m.field = none := by
      rcases hwhy with hstorage | ⟨hstruct, -⟩
      · simp [fieldWidth?, hbits, hunit, hstorage]
      · cases hstruct
    simp [hkept.entries, hnone]
  · have hsome : fieldWidth? g names m.field = some (unitOf g m) := by
      simp [fieldWidth?, hbits, hunit, hstorage]
    rw [hplaced.entries_union, List.map_append, List.mem_append,
      hentries.mem_bytes g hstorage hne, hsome]
    simp [eq_comm]

/-- Bit-fields that share a unit have one width. -/
theorem fieldWidth?_eq_of_sharesUnit {first m : Member} (hbits : first.field.isBitField = true)
    (h : sharesUnit g first m = true) :
    fieldWidth? g names m.field = fieldWidth? g names first.field := by
  simp only [sharesUnit, Bool.and_eq_true, decide_eq_true_eq] at h
  obtain ⟨⟨hbits', -⟩, hsize⟩ := h
  simp [fieldWidth?, hbits, hbits', unitOf, hsize]

theorem unmoved_placeFields (hp : Unmoved p) (ms : List Member) :
    Unmoved (placeFields g names true p ms) := by
  fun_induction placeFields g names true p ms with
  | case1 p => exact hp
  | case2 p m rest _ ih =>
    refine ih ?_
    rcases placeUnit_step g true p m (m :: rest.takeWhile (sharesUnit g m)) with
      ⟨hkept, -⟩ | ⟨storage, unit, n, -, hne, -, -, hplaced⟩
    · exact hkept.unmoved hp
    · exact hplaced.unmoved hne
  | case3 p m rest _ ih =>
    refine ih ?_
    rcases placeField_step g names true p m with ⟨hkept, -⟩ | ⟨type, -, -, -, -, hplaced⟩
    · exact hkept.unmoved hp
    · exact hplaced.unmoved (List.cons_ne_nil _ _)

/-- **Fields are as wide as can be told from each of them.** -/
theorem mem_bytes_placeFields (ms : List Member) (w : Int) :
    w ∈ (placeFields g names true p ms).entries.map Entry.bytes ↔
      w ∈ p.entries.map Entry.bytes ∨ ∃ m ∈ ms, fieldWidth? g names m.field = some w := by
  fun_induction placeFields g names true p ms with
  | case1 p => simp
  | case2 p m rest hbits ih =>
    have hshared : (∃ x ∈ rest.takeWhile (sharesUnit g m), fieldWidth? g names x.field = some w) →
        fieldWidth? g names m.field = some w := by
      rintro ⟨x, hx, hwidth⟩
      rwa [← fieldWidth?_eq_of_sharesUnit g names hbits (List.mem_takeWhile_imp hx)]
    have hsplit : (∃ x ∈ rest, fieldWidth? g names x.field = some w) ↔
        (∃ x ∈ rest.takeWhile (sharesUnit g m), fieldWidth? g names x.field = some w) ∨
          ∃ x ∈ rest.dropWhile (sharesUnit g m), fieldWidth? g names x.field = some w := by
      conv_lhs => rw [← List.takeWhile_append_dropWhile (p := sharesUnit g m) (l := rest)]
      simp only [List.mem_append, or_and_right, exists_or]
    have hgroup : (fieldWidth? g names m.field = some w ∨
          ∃ x ∈ rest, fieldWidth? g names x.field = some w) ↔
        fieldWidth? g names m.field = some w ∨
          ∃ x ∈ rest.dropWhile (sharesUnit g m), fieldWidth? g names x.field = some w := by
      rw [hsplit, ← or_assoc, or_iff_left_of_imp hshared]
    rw [ih, mem_bytes_placeUnit g names hbits, List.exists_mem_cons_iff, hgroup, or_assoc]
  | case3 p m rest hplain ih =>
    rw [ih, mem_bytes_placeField g names (Bool.not_eq_true _ ▸ hplain), List.exists_mem_cons_iff,
      or_assoc]

/-- A union that has no entry is one padding of its size. -/
theorem bytes_finish (hp : Unmoved p) (n : Int) :
    (finish true (some n) p).entries.map Entry.bytes =
      if p.entries = [] then (if n = 0 then [] else [n]) else p.entries.map Entry.bytes := by
  unfold finish
  by_cases hnone : p.entries = []
  · by_cases hn : n = 0
    · simp [hnone, hn]
    · simp [hnone, hn, hp hnone, Placement.add, Entry.bytes]
  · simp [hnone]

end

/-! ## 4. A whole union -/

/-- The members of an aggregate are its fields, in order. -/
theorem map_field_membersOf (memberNames : List String) (a : Aggregate) :
    (membersOf memberNames a).map Member.field = a.fields := by
  rw [membersOf, List.map_map]
  exact List.zipIdx_map_fst 0 a.fields

/-- The members of a union before it is padded. -/
theorem mem_bytes_members (g : Graph) (names : NameTable) (memberNames : List String)
    (a : Aggregate) :
    let p := placeFields g names true
      (placeBases g names true {} 0 ((baseNames names [] a.bases).zip a.bases))
      (byOffset (membersOf memberNames a))
    Unmoved p ∧ ∀ w, w ∈ p.entries.map Entry.bytes ↔ w ∈ memberWidths g names a := by
  have hparts : ((baseNames names [] a.bases).zip a.bases).map Prod.snd = a.bases :=
    List.map_snd_zip (length_baseNames names [] a.bases).ge
  obtain ⟨hunmoved, hbases⟩ := bytes_placeBases g names (p := {}) (fun _ => rfl) 0
    ((baseNames names [] a.bases).zip a.bases)
  refine ⟨unmoved_placeFields g names hunmoved _, fun w => ?_⟩
  have hfields : (∃ m ∈ byOffset (membersOf memberNames a), fieldWidth? g names m.field = some w) ↔
      w ∈ a.fields.filterMap (fieldWidth? g names) := by
    conv_rhs => rw [← map_field_membersOf memberNames a]
    simp [byOffset]
  rw [mem_bytes_placeFields, hbases, hparts, hfields, memberWidths, List.mem_append]
  simp

/-- **A union keeps its size if a member fills it.** If no member that gets an entry is wider
than the size, the widest entry is as wide as the widest of these members. That is the size if
there is one of this width, or if there is none at all: then the union is one padding. -/
theorem widest_layoutAs (g : Graph) (names : NameTable) (memberNames : List String)
    (a : Aggregate) {n : Int} (hunion : a.isUnion = true) (hsize : a.size = some n)
    (hn : 0 ≤ n) (hfits : ∀ w ∈ memberWidths g names a, w ≤ n) :
    let width := widest ((layoutAs g names memberNames a).entries.map Entry.bytes)
    (width = if memberWidths g names a = [] then n else widest (memberWidths g names a)) ∧
    (width = n ↔ memberWidths g names a = [] ∨ n = 0 ∨ n ∈ memberWidths g names a) := by
  intro width
  obtain ⟨hunmoved, hmem⟩ := mem_bytes_members g names memberNames a
  have hwidth : width = if memberWidths g names a = [] then n
      else widest (memberWidths g names a) := by
    simp only [width, layoutAs, hunion, hsize]
    generalize placeFields g names true _ _ = p at hunmoved hmem
    have hnone : p.entries = [] ↔ memberWidths g names a = [] := by
      rw [← List.map_eq_nil_iff (f := Entry.bytes), List.eq_nil_iff_forall_not_mem,
        List.eq_nil_iff_forall_not_mem]
      simp only [hmem]
    rw [bytes_finish hunmoved]
    by_cases hempty : p.entries = []
    · rw [if_pos hempty, if_pos (hnone.mp hempty)]
      split
      · rename_i hzero
        exact hzero.symm
      · simpa [widest] using hn
    · rw [if_neg hempty, if_neg (mt hnone.mpr hempty), widest_congr hmem]
  refine ⟨hwidth, ?_⟩
  rw [hwidth]
  split
  · simp [*]
  · rename_i hsome
    simp [hsome, widest_eq_iff hn hfits]

/-- A union of five characters and a number of four bytes. -/
def textOrNumber (size : Int) : Graph × Aggregate :=
  (⟨#[.primitive .char, .array 0 (some 5), .primitive .int32]⟩,
    { name := "U", size := some size, isUnion := true
      fields := [⟨"text", 1, 0, none, none, false⟩, ⟨"number", 2, 0, none, none, false⟩] })

section

variable (size : Int)

theorem types_textOrNumber :
    typeOf? (textOrNumber size).1 [] 1 = some (.repeated (.given "ctypes.c_char") 5) ∧
      typeOf? (textOrNumber size).1 [] 2 = some (.given "ctypes.c_int32") := by
  have hsized : sized? (some (.given "ctypes.c_char")) = some (.given "ctypes.c_char") := by
    decide
  simp [typeOf?, textOrNumber, Graph.get, primitiveText, hsized]

theorem sizes_textOrNumber :
    (textOrNumber size).1.byteSize 1 = some 5 ∧ (textOrNumber size).1.byteSize 2 = some 4 := by
  simp [Graph.byteSize, textOrNumber, Graph.get, Primitive.size]

theorem memberWidths_textOrNumber :
    memberWidths (textOrNumber size).1 [] (textOrNumber size).2 = [5, 4] := by
  have htypes := types_textOrNumber size
  have hsizes := sizes_textOrNumber size
  generalize (textOrNumber size).1 = g at *
  simp [memberWidths, baseWidths, fieldWidth?, textOrNumber, FieldPart.isBitField, htypes, hsizes]

theorem entries_textOrNumber :
    (layout (textOrNumber size).1 [] (textOrNumber size).2).entries =
      [.field 0 "text" (.repeated (.given "ctypes.c_char") 5) 5,
        .field 1 "number" (.given "ctypes.c_int32") 4] := by
  have htypes := types_textOrNumber size
  have hsizes := sizes_textOrNumber size
  have hmembers : fieldNames [] (textOrNumber size).2 = ["text", "number"] := by
    show Naming.allocateMembers ["text", "number"] dataAttributes = _
    decide
  rw [layout, hmembers]
  generalize (textOrNumber size).1 = g at *
  simp [layoutAs, textOrNumber, membersOf, byOffset, List.mergeSort, placeBases, baseNames,
    placeFields, placeField, finish, FieldPart.isBitField, Placement.padTo, Placement.add,
    Placement.moveTo, htypes, hsizes]

end

theorem widest_layoutAs_textOrNumber :
    (textOrNumber 5).2.isUnion = true ∧ (textOrNumber 5).2.size = some 5 ∧
      (∀ w ∈ memberWidths (textOrNumber 5).1 [] (textOrNumber 5).2, w ≤ 5) ∧
      widest ((layoutAs (textOrNumber 5).1 [] ["text", "number"] (textOrNumber 5).2).entries.map
        Entry.bytes) = 5 := by
  have hfits : ∀ w ∈ memberWidths (textOrNumber 5).1 [] (textOrNumber 5).2, w ≤ 5 := by
    rw [memberWidths_textOrNumber]
    decide
  obtain ⟨-, hkeeps⟩ := widest_layoutAs (textOrNumber 5).1 [] ["text", "number"]
    (textOrNumber 5).2 rfl rfl (by decide) hfits
  refine ⟨rfl, rfl, hfits, hkeeps.mpr (.inr (.inr ?_))⟩
  rw [memberWidths_textOrNumber]
  decide

/-- A union of eight bytes, as where its members are aligned to four, becomes one of five. -/
theorem narrowed_textOrNumber :
    (textOrNumber 8).2.isUnion = true ∧ (textOrNumber 8).2.size = some 8 ∧
      (textOrNumber 8).1.layoutFault? (textOrNumber 8).2 = none ∧
      (∀ f ∈ (textOrNumber 8).2.fields, ∀ n, (textOrNumber 8).1.byteSize f.type = some n →
        n ≤ 8) ∧
      widest ((layout (textOrNumber 8).1 [] (textOrNumber 8).2).entries.map Entry.bytes) ≠ 8 := by
  have hsizes := sizes_textOrNumber 8
  refine ⟨rfl, rfl, ?_, ?_, ?_⟩
  · decide
  · generalize (textOrNumber 8).1 = g at *
    simp [textOrNumber, hsizes]
  · rw [entries_textOrNumber]
    decide

end NativeTypes.Ctypes
