/-
NativeTypes.Proofs.Writer.Accounts — no member is dropped in silence.

An entry or a note is about a base, about a field, or about none (`Part`).
`mentions` counts what the members placed so far say about a part. Every step
of the layout adds one mention of the part it deals with and none of another,
so an aggregate mentions each of its parts once: it is emitted, or there is a
note (`mentions_layoutAs`). Bit-fields are dealt with by storage unit and in
the order of their bits; counting does not see that order.

A step has up to five branches, and it is of no account here which of them is
taken: each ends with one entry or one note. So the lemma on a step is an
equation on counts without any condition, and the runs over bases and fields
add the counts up.
-/
import Mathlib.Data.List.Count
import Mathlib.Data.List.Permutation
import NativeTypes.Writer.Ctypes

namespace NativeTypes.Ctypes

/-- A base or field of an aggregate, by its place. -/
inductive Part
  | base (index : Nat)
  | field (index : Nat)
  deriving DecidableEq

/-- The part that an entry is about; padding and fillers are about none. -/
def Entry.part? : Entry → Option Part
  | base index .. => some (.base index)
  | field index .. | bits index .. => some (.field index)
  | padding .. | filler .. => none

/-- The part that a note is about. -/
def Note.part : Note → Part
  | baseKept index .. => .base index
  | noLayout index .. | unionOffset index .. | overlap index .. | bitsNoLayout index ..
  | bitsOverlap index .. => .field index

namespace Placement

/-- How often the entries and notes are about a part. -/
def mentions (p : Placement) (x : Part) : Nat :=
  p.entries.countP (fun e => e.part? = some x) + p.notes.countP (fun n => n.part = x)

@[simp] theorem mentions_add (p : Placement) (e : Entry) (x : Part) :
    (p.add e).mentions x = p.mentions x + if e.part? = some x then 1 else 0 := by
  simp [mentions, add, List.countP_singleton, Nat.add_right_comm]

@[simp] theorem mentions_note (p : Placement) (n : Note) (x : Part) :
    (p.note n).mentions x = p.mentions x + if n.part = x then 1 else 0 := by
  simp [mentions, note, List.countP_singleton, Nat.add_assoc]

@[simp] theorem mentions_moveTo (p : Placement) (offset : Int) (x : Part) :
    (p.moveTo offset).mentions x = p.mentions x := rfl

@[simp] theorem mentions_padTo (isUnion : Bool) (p : Placement) (offset : Int) (x : Part) :
    (p.padTo isUnion offset).mentions x = p.mentions x := by
  unfold padTo
  split
  · exact mentions_add p _ x
  · rfl

end Placement

/-! ## 1. Bases and plain fields -/

variable (g : Graph) (names : NameTable) (isUnion : Bool)

/-- One mention of the base. -/
theorem mentions_placeBase (p : Placement) (index : Nat) (name : String) (b : BasePart)
    (x : Part) : (placeBase g names isUnion p index name b).mentions x =
      p.mentions x + if Part.base index = x then 1 else 0 := by
  unfold placeBase
  split
  · split
    · exact Placement.mentions_note p _ x
    · refine (Placement.mentions_add _ _ x).trans ?_
      rw [Placement.mentions_padTo]
      simp [Entry.part?]
  · exact Placement.mentions_note p _ x

/-- One of each, by induction on those that are left. -/
theorem mentions_placeBases (p : Placement) (index : Nat) (bs : List (String × BasePart))
    (x : Part) : (placeBases g names isUnion p index bs).mentions x =
      p.mentions x + (List.range' index bs.length).countP fun i => Part.base i = x := by
  induction bs generalizing p index with
  | nil => rfl
  | cons b bs ih =>
    rw [placeBases, ih, mentions_placeBase, List.length_cons, List.range'_succ, List.countP_cons]
    simp only [decide_eq_true_eq]
    omega

/-- One mention of the field. -/
theorem mentions_placeField (p : Placement) (m : Member) (x : Part) :
    (placeField g names isUnion p m).mentions x =
      p.mentions x + if Part.field m.index = x then 1 else 0 := by
  unfold placeField
  dsimp only
  split
  · exact Placement.mentions_note p _ x
  · split
    · exact Placement.mentions_note p _ x
    · split
      · exact Placement.mentions_note p _ x
      · split
        · exact Placement.mentions_note p _ x
        · rw [Placement.mentions_moveTo, Placement.mentions_add, Placement.mentions_padTo]
          simp [Entry.part?]

/-! ## 2. Bit-fields -/

/-- How many of the members are about a part. -/
def countOf (ms : List Member) (x : Part) : Nat := ms.countP fun m => Part.field m.index = x

theorem countOf_cons (m : Member) (ms : List Member) (x : Part) :
    countOf (m :: ms) x = (if Part.field m.index = x then 1 else 0) + countOf ms x := by
  rw [countOf, List.countP_cons, Nat.add_comm]
  simp [countOf]

@[simp] theorem mentions_fillTo (storage : String) (first : FieldPart) (b : Bits) (bit : Int)
    (x : Part) : (b.fillTo storage first bit).placement.mentions x = b.placement.mentions x := by
  unfold Bits.fillTo
  split
  · exact Placement.mentions_add _ _ x
  · rfl

/-- One mention, whether it overlaps or not. -/
theorem mentions_placeBit (storage : String) (first : FieldPart) (b : Bits) (m : Member)
    (x : Part) : (placeBit storage first b m).placement.mentions x =
      b.placement.mentions x + if Part.field m.index = x then 1 else 0 := by
  unfold placeBit
  dsimp only
  split
  · exact Placement.mentions_note _ _ x
  · rw [Placement.mentions_add, mentions_fillTo]
    simp [Entry.part?]

theorem mentions_foldl_placeBit (storage : String) (first : FieldPart) (b : Bits)
    (ms : List Member) (x : Part) :
    (ms.foldl (placeBit storage first) b).placement.mentions x =
      b.placement.mentions x + countOf ms x := by
  induction ms generalizing b with
  | nil => rfl
  | cons m ms ih => rw [List.foldl_cons, ih, mentions_placeBit, countOf_cons, Nat.add_assoc]

theorem mentions_foldl_note (p : Placement) (ms : List Member) (x : Part) :
    (ms.foldl (fun p m => p.note (.bitsNoLayout m.index m.field.name)) p).mentions x =
      p.mentions x + countOf ms x := by
  induction ms generalizing p with
  | nil => rfl
  | cons m ms ih =>
    rw [List.foldl_cons, ih, Placement.mentions_note, countOf_cons, Nat.add_assoc]
    rfl

/-- One of each bit-field in the unit. -/
theorem mentions_placeUnit (p : Placement) (first : Member) (group : List Member) (x : Part) :
    (placeUnit g isUnion p first group).mentions x = p.mentions x + countOf group x := by
  unfold placeUnit
  dsimp only
  split
  · exact mentions_foldl_note p group x
  · split
    · exact mentions_foldl_note p group x
    · rw [Placement.mentions_moveTo, mentions_fillTo, mentions_foldl_placeBit]
      dsimp only
      rw [Placement.mentions_padTo, countOf, (List.mergeSort_perm group _).countP_eq]
      rfl

/-- One of each field, unit by unit. -/
theorem mentions_placeFields (p : Placement) (ms : List Member) (x : Part) :
    (placeFields g names isUnion p ms).mentions x = p.mentions x + countOf ms x := by
  fun_induction placeFields g names isUnion p ms with
  | case1 p => rfl
  | case2 p m rest _ ih =>
    have hsplit : countOf rest x = countOf (rest.takeWhile (sharesUnit g m)) x +
        countOf (rest.dropWhile (sharesUnit g m)) x := by
      rw [countOf, countOf, countOf, ← List.countP_append, List.takeWhile_append_dropWhile]
    rw [ih, mentions_placeUnit, countOf_cons, countOf_cons, hsplit]
    omega
  | case3 p m rest _ ih =>
    rw [ih, mentions_placeField, countOf_cons, Nat.add_assoc]

/-! ## 3. A whole aggregate -/

theorem length_baseNames (used : List String) (bs : List BasePart) :
    (baseNames names used bs).length = bs.length := by
  induction bs generalizing used with
  | nil => rfl
  | cons b bs ih => rw [baseNames, List.length_cons, List.length_cons, ih]

/-- Sorting by offset leaves the counts. -/
theorem countOf_membersOf (memberNames : List String) (a : Aggregate) (x : Part) :
    countOf (byOffset (membersOf memberNames a)) x =
      (List.range' 0 a.fields.length).countP fun i => Part.field i = x := by
  have hindices : (membersOf memberNames a).map Member.index = List.range' 0 a.fields.length := by
    rw [membersOf, List.map_map, ← List.zipIdx_map_snd]
    rfl
  rw [countOf, byOffset, (List.mergeSort_perm _ _).countP_eq, ← hindices, List.countP_map]
  rfl

theorem countP_range' {f : Nat → Part} (hf : f.Injective) {n i : Nat} (hi : i < n) :
    ((List.range' 0 n).countP fun j => f j = f i) = 1 := by
  have hcount : ((List.range' 0 n).countP fun j => f j = f i) = (List.range' 0 n).count i := by
    refine List.countP_congr fun j _ => ?_
    simp [hf.eq_iff]
  rw [hcount]
  exact List.count_eq_one_of_mem List.nodup_range' (by simp [List.mem_range', hi])

theorem mentions_finish (size : Option Int) (p : Placement) (x : Part) :
    (finish isUnion size p).mentions x = p.mentions x := by
  unfold finish
  cases size with
  | none => rfl
  | some n =>
    dsimp only
    split
    · split
      · exact Placement.mentions_add p _ x
      · rfl
    · exact Placement.mentions_padTo isUnion p n x

/-- An aggregate mentions its parts, and in what order they are dealt with does not matter. -/
theorem mentions_layoutAs (memberNames : List String) (a : Aggregate) (x : Part) :
    (layoutAs g names memberNames a).mentions x =
      ((List.range' 0 a.bases.length).countP fun i => Part.base i = x) +
        (List.range' 0 a.fields.length).countP fun i => Part.field i = x := by
  unfold layoutAs
  dsimp only
  rw [mentions_finish, mentions_placeFields, mentions_placeBases, countOf_membersOf,
    List.length_zip, length_baseNames, Nat.min_self]
  simp [Placement.mentions]

theorem mentions_le_one (memberNames : List String) (a : Aggregate) (x : Part) :
    (layoutAs g names memberNames a).mentions x ≤ 1 := by
  have hcount {f : Nat → Part} (hf : f.Injective) (n : Nat) :
      ((List.range' 0 n).countP fun i => f i = x) ≤ 1 := by
    have hnodup : ((List.range' 0 n).map f).Nodup := List.Nodup.map hf List.nodup_range'
    have hle := List.nodup_iff_count_le_one.mp hnodup x
    rw [List.count, List.countP_map] at hle
    simpa [Function.comp_def, beq_eq_decide] using hle
  rw [mentions_layoutAs]
  cases x with
  | base i => simpa using hcount (fun _ _ h => Part.base.inj h) a.bases.length
  | field i => simpa using hcount (fun _ _ h => Part.field.inj h) a.fields.length

/-- **Every base has one entry or one note.** -/
theorem mentions_base (memberNames : List String) {a : Aggregate} {i : Nat}
    (hi : i < a.bases.length) : (layoutAs g names memberNames a).mentions (.base i) = 1 := by
  rw [mentions_layoutAs, countP_range' (fun _ _ h => Part.base.inj h) hi]
  simp

/-- **Every field has one entry or one note.** -/
theorem mentions_field (memberNames : List String) {a : Aggregate} {i : Nat}
    (hi : i < a.fields.length) : (layoutAs g names memberNames a).mentions (.field i) = 1 := by
  rw [mentions_layoutAs, countP_range' (fun _ _ h => Part.field.inj h) hi]
  simp

end NativeTypes.Ctypes
