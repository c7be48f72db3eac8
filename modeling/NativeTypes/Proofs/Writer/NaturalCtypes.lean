/-
NativeTypes.Proofs.Writer.NaturalCtypes — packed structures do not depend on
handles.

The same graph may come about with its instances numbered in another order, as
when roots are resolved in another order. A writer is natural if it does not
show the numbers: for a graph, a name table and fragments under other handles
it writes the same text (`Writer.Natural`). For this writer that is
`natural_writer`, and with it whatever is proved of exports under other handles
holds of packed structures too.

The difficulty is that a layout is not free of handles. A filler remembers the
first field of its storage unit, and a note the base or field that it is about;
both are parts, and a part holds the handle of its type. So the layouts under
`f` are not equal but renamed: `Placement.rename` puts their entries and notes
under other handles, and every step of laying out commutes with it, from
`padTo_rename` and `placeBit_rename` through `placeBase_rename` and
`placeField_rename` to `layoutAs_rename`. Each of these lemmas is proved along
the branches of its function. The tests in them are about offsets, widths and
sizes, which are the same before and after, so both sides take the same branch.

What the steps read of the graph has to be the same as well. The type of a
member is (`typeOf?_rename`, by induction on the handle, because a pointer or
an array is described through what it points to or holds, which lies below it),
and so are sizes, bit-field units and whether a member is an array.

In the end the handles in a layout go nowhere: the texts of entries and notes,
and the names that they use, do not mention them (`Entry.text_rename`,
`Note.text_rename`, `bodyText_rename`). The order in which preludes are written
is by kind of instance only and stable, so it is kept too
(`preludeOrder_rename`).
-/
import NativeTypes.Proofs.Writer.Natural
import NativeTypes.Writer.Ctypes

namespace NativeTypes.Ctypes

/-! ## 1. Layouts under other handles

The data of a layout under a map of handles, and the steps that put single entries and notes into
it. Nothing is needed of the map yet. -/

/-- The entry under another handle. -/
def Entry.rename (f : Handle → Handle) : Entry → Entry
  | filler first number storage width => filler (first.rename f) number storage width
  | e => e

/-- The note under another handle. -/
def Note.rename (f : Handle → Handle) : Note → Note
  | baseKept index name part => baseKept index name (part.rename f)
  | unionOffset index part => unionOffset index (part.rename f)
  | n => n

/-- The placement under other handles. -/
def Placement.rename (f : Handle → Handle) (p : Placement) : Placement :=
  { p with entries := p.entries.map (Entry.rename f), notes := p.notes.map (Note.rename f) }

/-- The member under another handle. -/
def Member.rename (f : Handle → Handle) (m : Member) : Member :=
  { m with field := m.field.rename f }

/-- The bits under other handles. -/
def Bits.rename (f : Handle → Handle) (b : Bits) : Bits :=
  { b with placement := b.placement.rename f }

section

variable {f : Handle → Handle}

/-- An entry is written without its handles; only a filler has one, in a part that is kept for
messages. -/
@[simp] theorem Entry.text_rename (e : Entry) : (e.rename f).text = e.text := by
  cases e with
  | _ => rfl

/-- The names an entry uses are in its type expression. -/
@[simp] theorem Entry.uses_rename (e : Entry) : (e.rename f).uses = e.uses := by
  cases e with
  | _ => rfl

/-- Its numbers are offsets and widths. -/
@[simp] theorem Entry.isWritable_rename (e : Entry) : (e.rename f).isWritable = e.isWritable := by
  cases e with
  | filler first number storage width =>
    simp only [rename, isWritable, FieldPart.rename]
  | _ => rfl

/-- A note shows names and offsets. -/
@[simp] theorem Note.text_rename (n : Note) : (n.rename f).text = n.text := by
  cases n with
  | _ => rfl

@[simp] theorem Note.isWritable_rename (n : Note) : (n.rename f).isWritable = n.isWritable := by
  cases n with
  | baseKept index name part => simp only [rename, isWritable, BasePart.rename]
  | unionOffset index part => simp only [rename, isWritable, FieldPart.rename]
  | _ => rfl

namespace Placement

@[simp] theorem isWritable_rename (p : Placement) : (p.rename f).isWritable = p.isWritable := by
  unfold isWritable rename
  simp only [List.all_map, Function.comp_def, Entry.isWritable_rename, Note.isWritable_rename]

/-- Adding an entry commutes with renaming. -/
theorem add_rename (p : Placement) (e : Entry) :
    (p.rename f).add (e.rename f) = (p.add e).rename f := by
  unfold add rename
  simp only [List.map_append, List.map_cons, List.map_nil]

/-- So does adding a note. -/
theorem note_rename (p : Placement) (n : Note) :
    (p.rename f).note (n.rename f) = (p.note n).rename f := by
  unfold note rename
  simp only [List.map_append, List.map_cons, List.map_nil]

/-- Padding depends on the cursor, which is no handle. -/
theorem padTo_rename (isUnion : Bool) (p : Placement) (offset : Int) :
    padTo isUnion (p.rename f) offset = (padTo isUnion p offset).rename f := by
  unfold padTo
  show (if p.cursor < offset && !isUnion then _ else _) = _
  split
  · simp [add, rename, Entry.rename]
  · rfl

end Placement

/-- A filler up to a bit, written under the first field of its unit. -/
theorem Bits.fillTo_rename (storage : String) (first : FieldPart) (b : Bits) (bit : Int) :
    (b.rename f).fillTo storage (first.rename f) bit = (b.fillTo storage first bit).rename f := by
  unfold fillTo
  show (if b.bit < bit then _ else _) = _
  split
  · simp only [rename, ← Placement.add_rename]
    rfl
  · rfl

/-- A bit-field is placed at its bit, or noted where that is behind the cursor. -/
theorem placeBit_rename (storage : String) (first : FieldPart) (b : Bits) (m : Member) :
    placeBit storage (first.rename f) (b.rename f) (m.rename f) =
      (placeBit storage first b m).rename f := by
  unfold placeBit
  show (if m.field.bitOffset.getD 0 < b.bit then _ else _) = _
  simp only []
  split
  · simp only [Bits.rename, ← Placement.note_rename]
    rfl
  · rw [show (m.rename f).field.bitOffset = m.field.bitOffset from rfl, Bits.fillTo_rename]
    simp only [Bits.rename, ← Placement.add_rename]
    rfl

/-- A row of notes, if each of them commutes. -/
theorem foldl_note_rename (note : Member → Note)
    (hnote : ∀ m, note (m.rename f) = (note m).rename f)
    (group : List Member) (p : Placement) :
    (group.map (Member.rename f)).foldl (fun p m => p.note (note m)) (p.rename f) =
      (group.foldl (fun p m => p.note (note m)) p).rename f := by
  induction group generalizing p with
  | nil => rfl
  | cons m group ih =>
    rw [List.map_cons, List.foldl_cons, List.foldl_cons, hnote, Placement.note_rename, ih]

/-- A row of bit-fields in one unit. -/
theorem foldl_placeBit_rename (storage : String) (first : FieldPart) (group : List Member)
    (b : Bits) :
    (group.map (Member.rename f)).foldl (placeBit storage (first.rename f)) (b.rename f) =
      (group.foldl (placeBit storage first) b).rename f := by
  induction group generalizing b with
  | nil => rfl
  | cons m group ih =>
    rw [List.map_cons, List.foldl_cons, List.foldl_cons, placeBit_rename, ih]

end

section

variable {f : Handle ≃ Handle} {g g' : Graph} {names names' : NameTable}
  (hg : Graph.Renames f g g') (hn : NameTable.Renames f names names')

/-! ## 2. Types and names

From here on `f` is a renaming of graphs: what stands at `h` in `g` stands at `f h` in `g'`, with
its parts under `f`. Both graphs are layered, so the recursion on handles, which stops where a
part does not lie below, goes as deep in both. -/

section

include hg hn

/-- The type expression of an instance is the same under its new handle. -/
theorem typeOf?_rename (h : Handle) : typeOf? g' names' (f h) = typeOf? g names h := by
  induction h using Nat.strongRecOn with
  | ind h ih =>
    rw [typeOf?, typeOf?, hg.get h]
    cases hget : g.get h with
    | pointer target size =>
      have hlt := hg.layered.target_lt hget
      have hlt' : f target < f h := hg.layered'.target_lt (by rw [hg.get h, hget]; rfl)
      -- a pointer to a function is written by the function's own name
      simp only [Instance.rename, if_pos hlt, if_pos hlt', ih target hlt, hg.get target]
      cases g.get target with
      | function t => simp only [hn target]
      | _ => rfl
    | array element length =>
      have hlt := hg.layered.element_lt hget
      have hlt' : f element < f h := hg.layered'.element_lt (by rw [hg.get h, hget]; rfl)
      simp only [Instance.rename, if_pos hlt, if_pos hlt', ih element hlt]
    | enumeration e =>
      have hlt := hg.layered.underlying_lt hget
      have hlt' : f e.underlying < f h := hg.layered'.underlying_lt (by rw [hg.get h, hget]; rfl)
      simp only [Instance.rename, if_pos hlt, if_pos hlt', ih e.underlying hlt, hn h]
    | aggregate a => simp only [Instance.rename, hn h]
    | function t => simp only [Instance.rename, hn h]
    | _ => rfl

/-- A parameter that is an array is passed as a pointer to its element. -/
theorem signatureType_rename (h : Handle) :
    signatureType g' names' (f h) = signatureType g names h := by
  unfold signatureType
  rw [hg.get, typeOf?_rename hg hn]
  cases g.get h with
  | array element length => simp only [Instance.rename, typeOf?_rename hg hn]
  | _ => rfl

theorem signature_rename (t : FunctionType) :
    signature g' names' (t.rename f) = signature g names t := by
  unfold signature FunctionType.rename
  rw [signatureType_rename hg hn, List.map_map]
  refine congrArg _ (List.map_congr_left fun p _ => ?_)
  exact signatureType_rename hg hn p

theorem enumerationBase_rename (e : Enumeration) :
    enumerationBase g' names' { e with underlying := f e.underlying } =
      enumerationBase g names e := by
  unfold enumerationBase
  simp only [typeOf?_rename hg hn]

end

section

include hn

/-- Names for bases are made of the table's identifiers and of what was used before. -/
theorem baseNames_rename (used : List String) (bs : List BasePart) :
    baseNames names' used (bs.map (BasePart.rename f)) = baseNames names used bs := by
  induction bs generalizing used with
  | nil => rfl
  | cons b bs ih =>
    rw [List.map_cons, baseNames, baseNames,
      show names'.get? (b.rename f).type = names.get? b.type from hn b.type]
    simp only [ih]

theorem reserved_rename (a : Aggregate) : reserved names' (a.rename f) = reserved names a := by
  unfold reserved Aggregate.rename
  rw [baseNames_rename hn]

end

/-! ## 3. Placing

A member under another handle has the same index, name, offset and bits, so what is compared and
computed with these is literally the same; `show` says so where a test is to be split. -/

section

include hg

/-- The storage unit of a bit-field is that of its type's size. -/
theorem unitOf_rename (m : Member) : unitOf g' (m.rename f) = unitOf g m := by
  unfold unitOf
  rw [show g'.byteSize (m.rename f).field.type = g.byteSize m.field.type from
    hg.byteSize m.field.type]

theorem sharesUnit_rename (first m : Member) :
    sharesUnit g' (first.rename f) (m.rename f) = sharesUnit g first m := by
  unfold sharesUnit
  rw [show g'.byteSize (m.rename f).field.type = g.byteSize m.field.type from
    hg.byteSize m.field.type,
    show g'.byteSize (first.rename f).field.type = g.byteSize first.field.type from
    hg.byteSize first.field.type]
  rfl

theorem isArray_rename (h : Handle) : isArray g' (f h) = isArray g h := by
  unfold isArray
  rw [hg.get]
  cases g.get h with
  | _ => rfl

/-- A unit is noted as a whole, if it has no storage or overlaps, or its bit-fields are placed in
the order of their bits. Sorting is by bit offset, so it commutes with renaming. -/
theorem placeUnit_rename (isUnion : Bool) (p : Placement) (first : Member) (group : List Member) :
    placeUnit g' isUnion (p.rename f) (first.rename f) (group.map (Member.rename f)) =
      (placeUnit g isUnion p first group).rename f := by
  have hsort : (group.map (Member.rename f)).mergeSort
      (fun a b => a.field.bitOffset.getD 0 ≤ b.field.bitOffset.getD 0) =
      (group.mergeSort fun a b => a.field.bitOffset.getD 0 ≤ b.field.bitOffset.getD 0).map
        (Member.rename f) := by
    refine (List.map_mergeSort ?_).symm
    intro a _ b _
    rfl
  unfold placeUnit
  simp only [unitOf_rename hg, hsort]
  cases storageOf? (unitOf g first) with
  | none => exact foldl_note_rename _ (fun _ => rfl) group p
  | some storage =>
    simp only []
    show (if first.field.offset < p.cursor && !isUnion then _ else _) = _
    split
    · exact foldl_note_rename _ (fun _ => rfl) group p
    · have hstart : ({ placement := (p.rename f).padTo isUnion first.field.offset } : Bits) =
          Bits.rename f { placement := p.padTo isUnion first.field.offset } := by
        rw [Placement.padTo_rename]
        rfl
      show (Bits.fillTo storage (first.field.rename f) (List.foldl
        (placeBit storage (first.field.rename f))
        { placement := (p.rename f).padTo isUnion first.field.offset } _) _).placement.moveTo _ = _
      rw [hstart, foldl_placeBit_rename, Bits.fillTo_rename]
      rfl

include hn

/-- A base is added at its offset, or noted where it has no type, no size or no room. -/
theorem placeBase_rename (isUnion : Bool) (p : Placement) (index : Nat) (name : String)
    (b : BasePart) :
    placeBase g' names' isUnion (p.rename f) index name (b.rename f) =
      (placeBase g names isUnion p index name b).rename f := by
  -- all three ways to leave it out note the same
  have hnote : (p.rename f).note (.baseKept index (g.displayName b.type) (b.rename f)) =
      (p.note (.baseKept index (g.displayName b.type) b)).rename f :=
    Placement.note_rename p (.baseKept index (g.displayName b.type) b)
  unfold placeBase
  rw [show typeOf? g' names' (b.rename f).type = typeOf? g names b.type from
    typeOf?_rename hg hn b.type,
    show g'.byteSize (b.rename f).type = g.byteSize b.type from hg.byteSize b.type,
    show g'.displayName (b.rename f).type = g.displayName b.type from hg.displayName b.type]
  cases typeOf? g names b.type with
  | none => exact hnote
  | some type =>
    cases g.byteSize b.type with
    | none => exact hnote
    | some size =>
      simp only []
      show (if b.offset < p.cursor then _ else _) = _
      split
      · exact hnote
      · rw [show (b.rename f).offset = b.offset from rfl, Placement.padTo_rename]
        have hadd := Placement.add_rename (f := f) (p.padTo isUnion b.offset)
          (.base index name type size)
        unfold Entry.rename at hadd
        rw [hadd]
        rfl

theorem placeBases_rename (isUnion : Bool) (p : Placement) (index : Nat)
    (bs : List (String × BasePart)) :
    placeBases g' names' isUnion (p.rename f) index (bs.map (Prod.map id (BasePart.rename f))) =
      (placeBases g names isUnion p index bs).rename f := by
  induction bs generalizing p index with
  | nil => rfl
  | cons b bs ih =>
    rw [List.map_cons, placeBases, placeBases, ← ih, ← placeBase_rename hg hn]
    rfl

/-- A field is added at its offset, or noted for one of three reasons. -/
theorem placeField_rename (isUnion : Bool) (p : Placement) (m : Member) :
    placeField g' names' isUnion (p.rename f) (m.rename f) =
      (placeField g names isUnion p m).rename f := by
  unfold placeField
  simp only [show typeOf? g' names' (m.rename f).field.type = typeOf? g names m.field.type from
    typeOf?_rename hg hn m.field.type,
    show g'.byteSize (m.rename f).field.type = g.byteSize m.field.type from
    hg.byteSize m.field.type,
    show isArray g' (m.rename f).field.type = isArray g m.field.type from
    isArray_rename hg m.field.type]
  cases typeOf? g names m.field.type with
  | none => exact Placement.note_rename p (.noLayout m.index m.field.name)
  | some type =>
    simp only []
    split
    · exact Placement.note_rename p (.noLayout m.index m.field.name)
    · show (if isUnion && m.field.offset != 0 then _ else _) = _
      split
      · exact Placement.note_rename p (.unionOffset m.index m.field)
      · show (if m.field.offset < p.cursor && !isUnion then _ else _) = _
        split
        · exact Placement.note_rename p (.overlap m.index m.field.name)
        · rw [show (m.rename f).field.offset = m.field.offset from rfl, Placement.padTo_rename]
          have hadd := Placement.add_rename (f := f) (p.padTo isUnion m.field.offset)
            (.field m.index m.name type ((g.byteSize m.field.type).getD 0))
          unfold Entry.rename at hadd
          rw [show (m.rename f).index = m.index from rfl, show (m.rename f).name = m.name from rfl,
            hadd]
          rfl

/-- Fields one after the other, where a bit-field takes the ones that share its unit along: the
induction is that of `placeFields`, which takes a whole unit in one step. -/
theorem placeFields_rename (isUnion : Bool) (p : Placement) (ms : List Member) :
    placeFields g' names' isUnion (p.rename f) (ms.map (Member.rename f)) =
      (placeFields g names isUnion p ms).rename f := by
  have hshares (m : Member) : sharesUnit g' (m.rename f) ∘ Member.rename f = sharesUnit g m :=
    funext fun m' => sharesUnit_rename hg m m'
  have hbit (m : Member) : (m.rename f).field.isBitField = m.field.isBitField := rfl
  induction p, ms using placeFields.induct g names isUnion with
  | case1 p => rw [List.map_nil, placeFields, placeFields]
  | case2 p m rest hbits ih =>
    rw [List.map_cons, placeFields, placeFields, hbit m, if_pos hbits, if_pos hbits, ← ih,
      ← placeUnit_rename hg, List.takeWhile_map, List.dropWhile_map, hshares, List.map_cons]
  | case3 p m rest hbits ih =>
    rw [List.map_cons, placeFields, placeFields, hbit m, if_neg hbits, if_neg hbits, ← ih,
      placeField_rename hg hn]

end

/-- At the end an aggregate is padded to its size; one with nothing in it becomes all padding. -/
theorem finish_rename (f : Handle → Handle) (isUnion : Bool) (size : Option Int) (p : Placement) :
    finish isUnion size (p.rename f) = (finish isUnion size p).rename f := by
  unfold finish
  cases size with
  | none => rfl
  | some n =>
    simp only []
    split
    · show (if p.cursor = 0 && (p.entries.map (Entry.rename f)).isEmpty && n != 0 then _ else _) = _
      rw [List.isEmpty_map]
      split
      · exact Placement.add_rename p (.padding (Placement.padName 0) n)
      · rfl
    · exact Placement.padTo_rename isUnion p n

include hg hn in
/-- **The layout of an aggregate is the same** up to the handles in it. -/
theorem layoutAs_rename (memberNames : List String) (a : Aggregate) :
    layoutAs g' names' memberNames (a.rename f) =
      (layoutAs g names memberNames a).rename f := by
  have hmembers : membersOf memberNames (a.rename f) =
      (membersOf memberNames a).map (Member.rename f) := by
    unfold membersOf Aggregate.rename
    rw [List.zipIdx_map, List.map_map, List.map_map]
    rfl
  -- members are sorted by offset, and the sort is stable
  have hsort : byOffset ((membersOf memberNames a).map (Member.rename f)) =
      (byOffset (membersOf memberNames a)).map (Member.rename f) := by
    refine (List.map_mergeSort ?_).symm
    intro m _ m' _
    rfl
  have hbases : (baseNames names' [] (a.rename f).bases).zip (a.rename f).bases =
      ((baseNames names [] a.bases).zip a.bases).map (Prod.map id (BasePart.rename f)) := by
    rw [show (a.rename f).bases = a.bases.map (BasePart.rename f) from rfl,
      baseNames_rename hn, List.zip_map_right]
  unfold layoutAs
  simp only [hmembers, hsort, hbases]
  rw [show ({} : Placement) = Placement.rename f {} from rfl,
    placeBases_rename hg hn, placeFields_rename hg hn, finish_rename]
  rfl

/-! ## 4. What is written

Texts and names read the renamed layout and find the same in it. -/

/-- The body of a class shows the texts of entries and notes. -/
theorem bodyText_rename (f : Handle → Handle) (ident : String) (p : Placement) :
    bodyText ident (p.rename f) = bodyText ident p := by
  unfold bodyText Placement.rename
  simp only [List.foldl_map, List.isEmpty_map, List.map_map, Function.comp_def, Note.text_rename,
    Entry.text_rename]

/-- A member that is to be written has its name by index. -/
theorem lacksName_rename (f : Handle → Handle) (memberNames : List String) (a : Aggregate)
    (p : Placement) :
    lacksName memberNames (a.rename f) (p.rename f) = lacksName memberNames a p := by
  unfold lacksName Placement.rename Aggregate.rename
  rw [← List.map_drop, List.any_map, List.any_map]
  refine congrArg _ (congrArg (fun q => p.entries.any q) (funext fun e => ?_))
  cases e with
  | _ => rfl

include hg in
/-- Preludes come by sections, and a section is a kind of instance. -/
theorem preludeOrder_rename (fragments : List Fragment) :
    preludeOrder g' (fragments.map (Fragment.rename f)) =
      (preludeOrder g fragments).map (Fragment.rename f) := by
  have hsection (h : Handle) : sectionOf (g'.get (f h)) = sectionOf (g.get h) := by
    rw [hg.get]
    cases g.get h with
    | _ => rfl
  refine (List.map_mergeSort ?_).symm
  intro a _ b _
  show _ = decide (sectionOf (g'.get (f a.handle)) ≤ sectionOf (g'.get (f b.handle)))
  rw [hsection, hsection]

end

/-- **Packed structures do not depend on handles.** -/
theorem natural_writer (options : WriterOptions) : (writer options).Natural where
  assemble := fun {f g g'} hg module fragments => by
    show assemble g' module (fragments.map (Fragment.rename f)) = assemble g module fragments
    unfold assemble statements
    rw [preludeOrder_rename hg, List.filterMap_map, List.filterMap_map, List.map_map]
    rfl
  declare := fun {f g g' names names'} hg hn h => by
    show declare g' names' (Naming.members g') (f h) =
      (declare g names (Naming.members g) h).map (Fragment.rename f)
    unfold declare
    rw [hg.get, Writer.nameOf_rename hg hn, Writer.describe_rename hg,
      Writer.undeclarable_rename hg]
    cases hget : g.get h with
    | aggregate a =>
      simp only [Instance.rename, reserved_rename hn, Naming.members_rename hg,
        layoutAs_rename hg hn, Placement.isWritable_rename, lacksName_rename, bodyText_rename]
      cases Writer.nameOf g names h with
      | error e => rfl
      | ok ident =>
        cases Writer.describe g h with
        | error e => rfl
        | ok documentation =>
          simp only [bind, Except.bind, pure, Except.pure]
          cases Writer.needWritable _ with
          | error e => rfl
          | ok _ =>
            have huses (p : Placement) : (p.rename f).entries.flatMap Entry.uses =
                p.entries.flatMap Entry.uses := by
              unfold Placement.rename
              simp only [List.flatMap_map, Entry.uses_rename]
            simp only [huses]
            split
            · rfl
            · rfl
    | enumeration e =>
      simp only [Instance.rename, Naming.members_rename hg, enumerationBase_rename hg hn]
      cases Writer.nameOf g names h with
      | error e => rfl
      | ok ident =>
        cases Writer.describe g h with
        | error e => rfl
        | ok documentation => rfl
    | function t =>
      simp only [Instance.rename, hg.displayName, signature_rename hg hn]
      cases Writer.nameOf g names h with
      | error e => rfl
      | ok ident => rfl
    | _ => rfl

end NativeTypes.Ctypes
