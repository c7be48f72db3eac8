/-
NativeTypes.Proofs.Dwarf.Dimensions — debug information as one description.

An image does not answer alike at all times: a dimension of an array is known
only once the array was looked up. But no two dimensions share an id, as long
as no array has more than 64 of them (`Spaced`): the id is made of the offset
of the array, times 64, and of the place among the dimensions. Then there is
one table of all dimensions (`Image.dimensions`), and with it the image
describes every reference (`Image.describe`). What is known at some time is a
part of that table, and leads only to what is known (`Faithful`).

A resolver gets to the dimensions through their arrays. So it does not notice
if the images are exchanged for informed ones, which know all dimensions as
soon as they are asked for one that they do not know (`exchanges_informed`),
and those do answer from the description.

Everything about resolvers is shown for sources that answer from one
description, and an image is not such a source: asked for a dimension out of
turn it finds nothing. Weakening those results to sources that learn would have
brought the order of look-ups back into each of them. Instead the image is
replaced here, once, by a source that does answer from a description, and what
is shown is that no run of a resolver can tell the two apart. That is an
invariant of what a resolver asks (`Consistent`): it asks only for references
that it was told, and by the time it was told one of a dimension that dimension
is known.
-/
import NativeTypes.Proofs.Dwarf.Kept
import NativeTypes.Proofs.Resolver.Exchanged

namespace NativeTypes.Dwarf

namespace Image

variable {image : Image} {e : Entry} {shape : Shape} {n : Int}

/-! ## 1. The dimensions of all arrays

An array of several dimensions is read as an array of arrays, and the inner ones have no entry of
their own. They get ids that no entry can have. -/

/-- What the shape of an entry can be, and the dimensions that come with it. -/
inductive ShapeCase (image : Image) (e : Entry) : Shape → Dimensions → Prop
  | declared {d : Entry} : e.tag.isAggregate = true → image.definitionOf? e = some d →
      d.isDeclaration = true → ShapeCase image e (Shape.ofUnsupported (image.nameOf d)) []
  | defined {d : Entry} : e.tag.isAggregate = true → image.definitionOf? e = some d →
      d.isDeclaration = false →
      ShapeCase image e { image.aggregateShape d with typeId := some d.offset } []
  | array : e.tag = .arrayType →
      ShapeCase image e { (image.arrayShape e).1 with typeId := some e.offset }
        (image.arrayShape e).2
  | plain {plain : Shape} : e.tag.isAggregate = false → image.plainShape e = .ok plain →
      ShapeCase image e { plain with typeId := some e.offset } []

/-- The tag of the entry decides. -/
theorem shapeOf_cases {ds : Dimensions} (h : image.shapeOf e = .ok (shape, ds)) :
    ShapeCase image e shape ds := by
  unfold shapeOf at h
  split at h
  · rename_i haggregate
    cases hdefinition : image.definitionOf? e with
    | none =>
      simp only [hdefinition] at h
      cases h
    | some d =>
      simp only [hdefinition] at h
      split at h
      · rename_i hdeclares
        cases h
        exact .declared haggregate hdefinition hdeclares
      · rename_i hdefines
        cases h
        exact .defined haggregate hdefinition (by simpa using hdefines)
  · rename_i haggregate
    split at h
    · rename_i harray
      cases h
      exact .array harray
    · cases hplain : image.plainShape e with
      | error fault =>
        rw [hplain] at h
        cases h
      | ok plain =>
        rw [hplain] at h
        cases h
        exact .plain (by simpa using haggregate) hplain

/-- The dimensions that come with an entry. -/
def dimensionsOf (image : Image) (e : Entry) : Dimensions :=
  match image.shapeOf e with
  | .ok (_, dimensions) => dimensions
  | .error _ => []

/-- The dimensions that come with all entries. -/
def dimensions (image : Image) : Dimensions :=
  (Entry.listings image.units).flatMap image.dimensionsOf

/-- The entries have offsets of their own, what is found by name is one of them, and no array has
more than 64 dimensions. -/
structure Spaced (image : Image) : Prop where
  placed : Entry.Placed image.units
  indexed : ∀ key e, image.index.byName.get? key = some e → e ∈ Entry.listings image.units
  few : ∀ e ∈ Entry.listings image.units, e.tag = .arrayType → (lengths e).length ≤ 64

/-- The ids of the inner dimensions, by their places. -/
theorem keys_inner (offset : Int) (element : Ref) (index : Nat) (ls : List (Option Int)) :
    (inner offset element index ls).1.map Prod.fst =
      (List.range' index ls.length).map (dimensionId offset) := by
  induction ls generalizing index with
  | nil => rfl
  | cons l ls ih => simp only [inner, List.map_cons, List.length_cons, List.range'_succ, ih]

theorem Tag.ne_arrayType_of_isAggregate {t : Tag} (h : t.isAggregate = true) : t ≠ .arrayType := by
  rintro rfl
  cases h

/-- Arrays have dimensions, and nothing else has. -/
theorem dimensionsOf_eq (image : Image) (e : Entry) : image.dimensionsOf e =
    if e.tag = .arrayType then
      (inner e.offset (image.typeRef e) 1 ((lengths e).drop 1)).1
    else [] := by
  unfold dimensionsOf shapeOf
  by_cases haggregate : e.tag.isAggregate = true
  · rw [if_pos haggregate, if_neg (Tag.ne_arrayType_of_isAggregate haggregate)]
    cases image.definitionOf? e with
    | none => rfl
    | some d =>
      dsimp only
      cases d.isDeclaration with
      | true => rfl
      | false => rfl
  · rw [if_neg haggregate]
    by_cases harray : e.tag = .arrayType
    · rw [if_pos harray, if_pos harray]
      rfl
    · rw [if_neg harray, if_neg harray]
      cases image.plainShape e with
      | ok shape => rfl
      | error fault => rfl

/-- The id of a dimension says which array it belongs to, and at which place. -/
theorem dimensionId_inj {m n : Int} {i j : Nat} (hi : i < 64) (hj : j < 64)
    (h : dimensionId m i = dimensionId n j) : m = n ∧ i = j := by
  unfold dimensionId at h
  omega

/-- A dimension of an entry has the id of its place, and the places are less than 64. -/
theorem Spaced.exists_index (h : image.Spaced) (he : e ∈ Entry.listings image.units)
    (hmem : n ∈ (image.dimensionsOf e).map Prod.fst) :
    ∃ i, 1 ≤ i ∧ i < 64 ∧ n = dimensionId e.offset i := by
  rw [dimensionsOf_eq] at hmem
  split at hmem
  · rename_i harray
    have hfew := h.few e he harray
    rw [keys_inner] at hmem
    obtain ⟨i, hi, rfl⟩ := List.mem_map.mp hmem
    rw [List.mem_range'_1, List.length_drop] at hi
    exact ⟨i, hi.1, by omega, rfl⟩
  · cases hmem

/-- No two dimensions share an id. -/
theorem Spaced.nodup (h : image.Spaced) : (image.dimensions.map Prod.fst).Nodup := by
  rw [dimensions, List.map_flatMap]
  refine List.nodup_flatMap.mpr ⟨fun e he => ?_, ?_⟩
  · rw [dimensionsOf_eq]
    split
    · rename_i harray
      have hfew := h.few e he harray
      rw [keys_inner]
      refine List.Nodup.map_on (fun i hi j hj heq => ?_) List.nodup_range'
      rw [List.mem_range'_1, List.length_drop] at hi hj
      exact (dimensionId_inj (by omega) (by omega) heq).2
    · exact List.nodup_nil
  · have hoffsets := List.pairwise_map.mp h.placed.nodup
    refine hoffsets.imp_of_mem fun hd he hne n hn hn' => hne ?_
    obtain ⟨i, -, hi, hid⟩ := h.exists_index hd hn
    obtain ⟨j, -, hj, hid'⟩ := h.exists_index he hn'
    exact (dimensionId_inj hi hj (hid.symm.trans hid')).1

/-- So each is found under its id. -/
theorem Spaced.get?_dimensions (h : image.Spaced) (he : e ∈ Entry.listings image.units)
    (hmem : (n, shape) ∈ image.dimensionsOf e) : image.dimensions.get? n = some shape :=
  Assoc.get?_of_mem h.nodup (List.mem_flatMap.mpr ⟨e, he, hmem⟩)

/-! ## 2. What shapes refer to

A shape refers to offsets and to names, and only an array of several dimensions refers to a
dimension, which is one of its own. So there is no way to a dimension but through its array. -/

/-- A name, or an offset. -/
def isPlain : Ref → Bool
  | .name _ => true
  | .id n => 0 ≤ n

/-- A name, an offset, or a dimension that is known. -/
def knows (known : Dimensions) : Ref → Bool
  | .name _ => true
  | .id n => 0 ≤ n || known.has n

theorem knows_of_isPlain {ref : Ref} (known : Dimensions) (h : isPlain ref = true) :
    knows known ref = true := by
  cases ref with
  | name text => rfl
  | id n => simp [knows, show 0 ≤ n by simpa [isPlain] using h]

/-- What is found by an offset is an entry there. -/
theorem mem_of_entry (h : image.entry? n = some e) :
    e ∈ Entry.listings image.units ∧ e.offset = n := by
  unfold entry? at h
  rw [Entry.findIn?_eq] at h
  exact ⟨List.mem_of_find?_eq_some h, by simpa using List.find?_some h⟩

/-- The type of an entry is given by its offset, or is `void`. -/
theorem Spaced.isPlain_typeRef (h : image.Spaced) (e : Entry) :
    isPlain (image.typeRef e) = true := by
  unfold typeRef refTo
  cases htype : image.typeOf? e with
  | none => rfl
  | some t =>
    obtain ⟨n, -, hn⟩ := Option.bind_eq_some_iff.mp htype
    simpa [isPlain] using h.placed.nonneg t (mem_of_entry hn).1

theorem type_of_base? {b : BaseShape} (h : image.base? e = some b) : b.type = image.typeRef e := by
  rw [base?] at h
  split at h
  · obtain ⟨offset, -, rfl⟩ := Option.map_eq_some_iff.mp h
    rfl
  · cases h

theorem type_of_field? {isUnion : Bool} {f : FieldShape} (h : image.field? isUnion e = some f) :
    f.type = image.typeRef e := by
  rw [field?] at h
  split at h
  · cases h
  · dsimp only at h
    split at h
    · cases h
      rfl
    · cases h
      rfl

/-- Bases and fields are given by offsets or by `void`. -/
theorem exists_typeRef_of_partRefs {r : Ref} (hr : r ∈ (image.aggregateShape e).partRefs) :
    ∃ x, r = image.typeRef x := by
  simp only [Shape.partRefs, aggregateShape, Shape.ofAggregate, List.mem_append, List.mem_map,
    List.mem_filterMap] at hr
  rcases hr with ⟨b, ⟨x, -, hx⟩, rfl⟩ | ⟨f, ⟨x, -, hx⟩, rfl⟩
  · exact ⟨x, type_of_base? hx⟩
  · exact ⟨x, type_of_field? hx⟩

/-- Entries other than aggregates and arrays refer to offsets and to `void`. -/
theorem Spaced.isPlain_of_plainShape (h : image.Spaced) (hshape : image.plainShape e = .ok shape)
    {r : Ref} (hr : shape.target = some r ∨ r ∈ shape.others) : isPlain r = true := by
  have htype := h.isPlain_typeRef
  unfold plainShape at hshape
  split at hshape
  · -- a base type refers to nothing
    unfold baseShape at hshape
    cases hscalar : image.baseScalar? e with
    | error fault =>
      rw [hscalar] at hshape
      cases hshape
    | ok kind =>
      rw [hscalar] at hshape
      cases kind with
      | some kind =>
        cases hshape
        simp [Shape.ofPrimitive, Shape.others, Shape.partRefs] at hr
      | none =>
        cases hshape
        simp [Shape.ofUnsupported, Shape.others, Shape.partRefs] at hr
  split at hshape
  · cases hshape
    obtain rfl : image.typeRef e = r := by
      simpa [Shape.ofPointer, Shape.others, Shape.partRefs] using hr
    exact htype e
  split at hshape
  · cases hshape
    obtain rfl : image.typeRef e = r := by
      simpa [Shape.ofAlias, Shape.others, Shape.partRefs] using hr
    exact htype e
  split at hshape
  · cases hshape
    obtain rfl : image.typeRef e = r := by
      simpa [Shape.ofAlias, Shape.others, Shape.partRefs] using hr
    exact htype e
  split at hshape
  · cases hshape
    obtain ⟨t, ht, rfl⟩ : ∃ t, image.typeOf? e = some t ∧ Ref.id t.offset = r := by
      simpa [enumerationShape, Shape.ofEnumeration, Shape.others, Shape.partRefs] using hr
    have hplain := htype e
    unfold typeRef refTo at hplain
    rw [ht] at hplain
    exact hplain
  split at hshape
  · cases hshape
    have hr : r = image.typeRef e ∨ ∃ p ∈ e.children, p.tag = .formalParameter ∧
        image.typeRef p = r := by
      simpa [functionShape, Shape.ofFunction, Shape.others, Shape.partRefs, and_assoc] using hr
    rcases hr with rfl | ⟨p, -, -, rfl⟩
    · exact htype e
    · exact htype p
  · cases hshape
    simp [Shape.ofUnsupported, Shape.others, Shape.partRefs] at hr

/-- What entries refer to besides their targets is given by offsets or by `void`. -/
theorem Spaced.isPlain_of_mem_others (h : image.Spaced) {ds : Dimensions} {r : Ref}
    (hshape : image.shapeOf e = .ok (shape, ds)) (hr : r ∈ shape.others) : isPlain r = true := by
  cases shapeOf_cases hshape with
  | declared => cases hr
  | @defined d =>
    have hparts : r ∈ (image.aggregateShape d).partRefs := by
      simpa [Shape.others, Shape.partRefs, aggregateShape, Shape.ofAggregate] using hr
    obtain ⟨x, rfl⟩ := exists_typeRef_of_partRefs hparts
    exact h.isPlain_typeRef x
  | array => cases hr
  | plain _ hplain => exact h.isPlain_of_plainShape hplain (.inr hr)

/-- An inner dimension is an array of the next one, or of the element. -/
theorem inner_target (offset : Int) (element : Ref) (index : Nat) (ls : List (Option Int)) :
    ((inner offset element index ls).2 = element ∨
      ∃ n ∈ (inner offset element index ls).1.map Prod.fst,
        (inner offset element index ls).2 = .id n) ∧
    ∀ p ∈ (inner offset element index ls).1, p.2.others = [] ∧ p.2.typeId.isSome = true ∧
      ∃ r, p.2.target = some r ∧
        (r = element ∨ ∃ n ∈ (inner offset element index ls).1.map Prod.fst, r = .id n) := by
  induction ls generalizing index with
  | nil => exact ⟨.inl rfl, fun p hp => nomatch hp⟩
  | cons l ls ih =>
    obtain ⟨htarget, hrest⟩ := ih (index + 1)
    have hlater {r : Ref} (hr : r = element ∨
        ∃ n ∈ (inner offset element (index + 1) ls).1.map Prod.fst, r = .id n) : r = element ∨
        ∃ n ∈ (inner offset element index (l :: ls)).1.map Prod.fst, r = .id n :=
      hr.imp_right fun ⟨n, hn, h⟩ => ⟨n, List.mem_cons_of_mem _ hn, h⟩
    refine ⟨.inr ⟨_, List.mem_cons_self, rfl⟩, fun p hp => ?_⟩
    rcases List.mem_cons.mp hp with rfl | hp
    · exact ⟨rfl, rfl, _, rfl, hlater htarget⟩
    · obtain ⟨hothers, hid, r, hr, hleads⟩ := hrest p hp
      exact ⟨hothers, hid, r, hr, hlater hleads⟩

/-- The target of an entry is given by an offset, or it is `void` or the outermost of the inner
dimensions. -/
theorem Spaced.target_of_shapeOf (h : image.Spaced) {ds : Dimensions} {r : Ref}
    (hshape : image.shapeOf e = .ok (shape, ds)) (hr : shape.target = some r) :
    isPlain r = true ∨ ∃ n ∈ ds.map Prod.fst, r = .id n := by
  cases shapeOf_cases hshape with
  | declared | defined => cases hr
  | array =>
    obtain rfl : _ = r := Option.some.inj hr
    rcases (inner_target e.offset (image.typeRef e) 1 ((lengths e).drop 1)).1 with heq | hinner
    · left
      rw [heq]
      exact h.isPlain_typeRef e
    · exact .inr hinner
  | plain _ hplain => exact .inl (h.isPlain_of_plainShape hplain (.inl hr))

/-- A dimension has the next one as its element, or the element of the array. -/
theorem Spaced.target_of_dimension (h : image.Spaced) (hmem : (n, shape) ∈ image.dimensionsOf e)
    {r : Ref} (hr : shape.target = some r) :
    isPlain r = true ∨ ∃ m ∈ (image.dimensionsOf e).map Prod.fst, r = .id m := by
  rw [dimensionsOf_eq] at hmem ⊢
  split at hmem
  · rename_i harray
    rw [if_pos harray]
    obtain ⟨-, -, r', hr', hleads⟩ := (inner_target _ _ _ _).2 _ hmem
    cases hr.symm.trans hr'
    rcases hleads with rfl | hinner
    · exact .inl (h.isPlain_typeRef e)
    · exact .inr hinner
  · cases hmem

/-- What is described has an id, or it is not supported. -/
theorem isTitled_of_shapeOf {ds : Dimensions} (hshape : image.shapeOf e = .ok (shape, ds)) :
    shape.IsTitled := by
  cases shapeOf_cases hshape with
  | declared => exact .inr (.inr (.inr rfl))
  | defined | array | plain => exact .inr (.inl rfl)

/-- A dimension has an id, and it refers to its target only. -/
theorem dimension_facts (hmem : (n, shape) ∈ image.dimensionsOf e) :
    shape.others = [] ∧ shape.IsTitled := by
  rw [dimensionsOf_eq] at hmem
  split at hmem
  · obtain ⟨hothers, hid, -⟩ := (inner_target _ _ _ _).2 _ hmem
    exact ⟨hothers, .inr (.inl hid)⟩
  · cases hmem

/-! ## 3. The description -/

/-- What an image is taken to say where it fails. It never says so. -/
def refused : Shape := Shape.ofUnsupported "refused"

/-- What the image says about a reference when it knows all dimensions. -/
def describe (image : Image) : Resolver.Description := fun ref =>
  match (image.lookup image.dimensions ref).1 with
  | .ok answer => answer
  | .error _ => some refused

/-- The dimensions that are known are some of them all, and they lead to known ones. -/
structure Faithful (image : Image) (known : Dimensions) : Prop where
  sound : ∀ n shape, known.get? n = some shape → image.dimensions.get? n = some shape
  closed : ∀ n shape r, known.get? n = some shape → shape.target = some r → knows known r = true

/-- What is looked up: a dimension, an entry, or nothing that could be remembered. -/
theorem Spaced.lookup_cases (h : image.Spaced) (ref : Ref) :
    (∃ n, ref = .id n ∧ n < 0) ∨
    (∃ e ∈ Entry.listings image.units, ∀ known,
      image.lookup known ref = image.lookupEntry known e) ∨
    ∃ answer, (∀ known, image.lookup known ref = (answer, known)) ∧
      ∀ shape, answer = .ok (some shape) → ∃ text kind, shape = Shape.ofPrimitive text kind := by
  cases ref with
  | id n =>
    by_cases hn : n < 0
    · exact .inl ⟨n, rfl, hn⟩
    · cases hentry : image.entry? n with
      | none =>
        refine .inr (.inr ⟨.ok none, fun known => ?_, fun _ hshape => by cases hshape⟩)
        simp only [lookup, if_neg hn, hentry]
      | some e =>
        refine .inr (.inl ⟨e, (mem_of_entry hentry).1, fun known => ?_⟩)
        simp only [lookup, if_neg hn, hentry]
  | name text =>
    right
    cases hkey : TypeName.nameKey? text with
    | none =>
      refine .inr ⟨.error .tooManyDigits, fun known => ?_, fun _ hshape => by cases hshape⟩
      simp only [lookup, hkey]
    | some key =>
      cases hentry : image.index.byName.get? key with
      | some e =>
        refine .inl ⟨e, h.indexed key e hentry, fun known => ?_⟩
        simp only [lookup, hkey, hentry]
      | none =>
        refine .inr ⟨_, fun known => by simp only [lookup, hkey, hentry]; rfl, ?_⟩
        intro shape hshape
        cases hkind : Primitive.ofBuiltinName text image.pointerSize with
        | error fault =>
          rw [hkind] at hshape
          cases hshape
        | ok kind =>
          rw [hkind] at hshape
          cases kind with
          | none => cases hshape
          | some kind =>
            cases hshape
            exact ⟨text, kind, rfl⟩

/-! ## 4. Look-ups

What a look-up answers and what it adds to the known dimensions. It is compared with the look-up
that knows all of them, and the two agree on everything that is known. -/

/-- What is remembered comes from before or is added, and all of it stays. -/
theorem remember_facts (known ds : Dimensions) (n : Int) :
    (∀ shape, (remember known ds).get? n = some shape →
      known.get? n = some shape ∨ (n, shape) ∈ ds) ∧
    (known.has n = true ∨ n ∈ ds.map Prod.fst → (remember known ds).has n = true) := by
  induction ds generalizing known with
  | nil => simp [remember]
  | cons p ds ih =>
    obtain ⟨m, first⟩ := p
    obtain ⟨hfound, hhas⟩ := ih (known.put m first)
    have hput : (known.put m first).get? n = if m = n then some first else known.get? n :=
      Assoc.get?_put known m n first
    have hhasput : (known.put m first).has n = true ↔ m = n ∨ known.has n = true := by
      unfold Assoc.has
      rw [hput]
      by_cases hm : m = n <;> simp [hm]
    constructor
    · intro shape hshape
      rcases hfound shape hshape with hold | hmem
      · rw [hput] at hold
        split at hold
        · rename_i hm
          cases hold
          exact .inr (hm ▸ List.mem_cons_self)
        · exact .inl hold
      · exact .inr (List.mem_cons_of_mem _ hmem)
    · intro h
      refine hhas ?_
      rcases h with h | h
      · exact .inl (hhasput.mpr (.inr h))
      · rcases List.mem_cons.mp h with rfl | h
        · exact .inl (hhasput.mpr (.inl rfl))
        · exact .inr h

variable {known : Dimensions}

/-- What was known is known, and so is what was added. -/
theorem knows_remember {ds : Dimensions} {ref : Ref}
    (h : knows known ref = true ∨ ∃ n ∈ ds.map Prod.fst, ref = .id n) :
    knows (remember known ds) ref = true := by
  rcases h with h | ⟨n, hn, rfl⟩
  · cases ref with
    | name text => rfl
    | id n =>
      simp only [knows, Bool.or_eq_true] at h ⊢
      exact h.imp_right fun h => (remember_facts known ds n).2 (.inl h)
  · simp [knows, (remember_facts known ds n).2 (.inr hn)]

theorem Faithful.empty : Faithful image [] := ⟨by simp, by simp⟩

/-- The dimensions that come with a shape are those of its entry. -/
theorem dimensionsOf_of_shapeOf {ds : Dimensions} (h : image.shapeOf e = .ok (shape, ds)) :
    image.dimensionsOf e = ds := by
  unfold dimensionsOf
  rw [h]

/-- All dimensions lead to known ones. -/
theorem Spaced.faithful_all (h : image.Spaced) : Faithful image image.dimensions where
  sound := fun _ _ h => h
  closed := by
    intro n shape r hshape hr
    obtain ⟨e, he, hmem⟩ := List.mem_flatMap.mp (Assoc.mem_of_get? hshape)
    rcases h.target_of_dimension hmem hr with hplain | ⟨m, hm, rfl⟩
    · exact knows_of_isPlain _ hplain
    · obtain ⟨p, hp, rfl⟩ := List.mem_map.mp hm
      simp [knows, Assoc.has, h.get?_dimensions he hp]

/-- A look-up keeps what is known faithful. -/
theorem Spaced.faithful_lookup (h : image.Spaced) (hk : Faithful image known) (ref : Ref) :
    Faithful image (image.lookup known ref).2 := by
  rcases h.lookup_cases ref with ⟨n, rfl, hn⟩ | ⟨e, he, hlookup⟩ | ⟨answer, hlookup, -⟩
  · simp only [lookup, if_pos hn]
    exact hk
  · rw [hlookup, lookupEntry]
    cases hshape : image.shapeOf e with
    | error fault => exact hk
    | ok result =>
      obtain ⟨shape, ds⟩ := result
      have hds := dimensionsOf_of_shapeOf hshape
      refine ⟨fun n other hother => ?_, fun n other r hother hr => ?_⟩
      · rcases (remember_facts known ds n).1 other hother with hold | hmem
        · exact hk.sound n other hold
        · exact h.get?_dimensions he (hds ▸ hmem)
      · rcases (remember_facts known ds n).1 other hother with hold | hmem
        · exact knows_remember (.inl (hk.closed n other r hold hr))
        · rcases h.target_of_dimension (hds ▸ hmem) hr with hplain | hinner
          · exact knows_of_isPlain _ hplain
          · exact knows_remember (.inr (hds ▸ hinner))
  · rw [hlookup]
    exact hk

/-- What is known stays known. -/
theorem knows_lookup (ref : Ref) {r : Ref} (hr : knows known r = true) :
    knows (image.lookup known ref).2 r = true := by
  have hentry (e : Entry) : knows (image.lookupEntry known e).2 r = true := by
    rw [lookupEntry]
    cases image.shapeOf e with
    | error fault => exact hr
    | ok result => exact knows_remember (.inl hr)
  cases ref with
  | id n =>
    rw [lookup]
    split
    · exact hr
    · split
      · exact hentry _
      · exact hr
  | name text =>
    rw [lookup]
    split
    · exact hr
    · split
      · exact hentry _
      · exact hr

/-- The target of what was looked up is known. -/
theorem Spaced.knows_target (h : image.Spaced) (hk : Faithful image known) {ref r : Ref}
    (hanswer : (image.lookup known ref).1 = .ok (some shape)) (hr : shape.target = some r) :
    knows (image.lookup known ref).2 r = true := by
  rcases h.lookup_cases ref with ⟨n, rfl, hn⟩ | ⟨e, he, hlookup⟩ | ⟨answer, hlookup, hscalar⟩
  · simp only [lookup, if_pos hn] at hanswer ⊢
    exact hk.closed n shape r (Except.ok.inj hanswer) hr
  · rw [hlookup, lookupEntry] at hanswer ⊢
    cases hshape : image.shapeOf e with
    | error fault =>
      rw [hshape] at hanswer
      cases hanswer
    | ok result =>
      obtain ⟨found, ds⟩ := result
      rw [hshape] at hanswer
      cases hanswer
      rcases h.target_of_shapeOf hshape hr with hplain | hinner
      · exact knows_of_isPlain _ hplain
      · exact knows_remember (.inr hinner)
  · rw [hlookup] at hanswer
    obtain ⟨text, kind, rfl⟩ := hscalar shape hanswer
    cases hr

/-- What is known is answered with its description. -/
theorem Spaced.lookup_eq (h : image.Spaced) (hk : Faithful image known) {ref : Ref}
    (hknows : knows known ref = true) :
    (image.lookup known ref).1 = (image.lookup image.dimensions ref).1 := by
  rcases h.lookup_cases ref with ⟨n, rfl, hn⟩ | ⟨e, -, hlookup⟩ | ⟨answer, hlookup, -⟩
  · have hhas : known.has n = true := by
      simpa [knows, Int.not_le.mpr hn] using hknows
    obtain ⟨shape, hshape⟩ := Option.isSome_iff_exists.mp hhas
    simp only [lookup, if_pos hn, hshape, hk.sound n shape hshape]
  · rw [hlookup, hlookup, lookupEntry, lookupEntry]
    cases image.shapeOf e with
    | error fault => rfl
    | ok result => rfl
  · rw [hlookup, hlookup]

/-- Dimensions are all that may be unknown. -/
theorem ok_of_not_knows {ref : Ref} (hnot : knows known ref = false) (other : Dimensions) :
    ∃ answer, (image.lookup other ref).1 = .ok answer := by
  cases ref with
  | name text => cases hnot
  | id n =>
    have hn : n < 0 := by
      simp only [knows, Bool.or_eq_false_iff, decide_eq_false_iff_not] at hnot
      exact Int.not_le.mp hnot.1
    exact ⟨other.get? n, by simp only [lookup, if_pos hn]⟩

/-- What is answered as if all dimensions were known is the description. -/
theorem eq_describe {ref : Ref} {answer : Option Shape}
    (hall : (image.lookup known ref).1 = (image.lookup image.dimensions ref).1)
    (hanswer : (image.lookup known ref).1 = .ok answer) : answer = image.describe ref := by
  rw [describe, ← hall, hanswer]

/-- What is described is a dimension, the shape of an entry, or something that refers to nothing. -/
theorem Spaced.describe_cases (h : image.Spaced) {ref : Ref}
    (hshape : image.describe ref = some shape) :
    (∃ e ∈ Entry.listings image.units, ∃ n, (n, shape) ∈ image.dimensionsOf e) ∨
    (∃ e ∈ Entry.listings image.units, ∃ ds, image.shapeOf e = .ok (shape, ds)) ∨
    shape.IsTitled ∧ shape.others = [] := by
  have hrefused : refused.IsTitled ∧ refused.others = [] := ⟨.inl (by decide), rfl⟩
  rw [describe] at hshape
  rcases h.lookup_cases ref with ⟨n, rfl, hn⟩ | ⟨e, he, hlookup⟩ | ⟨answer, hlookup, hscalar⟩
  · simp only [lookup, if_pos hn] at hshape
    obtain ⟨e, he, hmem⟩ := List.mem_flatMap.mp (Assoc.mem_of_get? hshape)
    exact .inl ⟨e, he, n, hmem⟩
  · rw [hlookup, lookupEntry] at hshape
    cases hentry : image.shapeOf e with
    | error fault =>
      rw [hentry] at hshape
      cases hshape
      exact .inr (.inr hrefused)
    | ok result =>
      rw [hentry] at hshape
      cases hshape
      exact .inr (.inl ⟨e, he, result.2, hentry⟩)
  · rw [hlookup] at hshape
    cases answer with
    | error fault =>
      cases hshape
      exact .inr (.inr hrefused)
    | ok found =>
      obtain ⟨text, kind, rfl⟩ := hscalar shape (congrArg Except.ok hshape)
      exact .inr (.inr ⟨.inr (.inr (.inl rfl)), rfl⟩)

/-- What is described has a name or an id, or goes by neither. -/
theorem Spaced.isTitled (h : image.Spaced) {ref : Ref} (hshape : image.describe ref = some shape) :
    shape.IsTitled := by
  rcases h.describe_cases hshape with ⟨e, -, n, hmem⟩ | ⟨e, -, ds, hentry⟩ | ⟨htitled, -⟩
  · exact (dimension_facts hmem).2
  · exact isTitled_of_shapeOf hentry
  · exact htitled

/-- What is described refers to names and offsets, if not by its target. -/
theorem Spaced.isPlain_of_describe (h : image.Spaced) {ref r : Ref}
    (hshape : image.describe ref = some shape) (hr : r ∈ shape.others) : isPlain r = true := by
  rcases h.describe_cases hshape with ⟨e, -, n, hmem⟩ | ⟨e, -, ds, hentry⟩ | ⟨-, hothers⟩
  · rw [(dimension_facts hmem).1] at hr
    cases hr
  · exact h.isPlain_of_mem_others hentry hr
  · rw [hothers] at hr
    cases hr

/-- What the bases and fields of entries refer to. -/
def partRefs (image : Image) : List Ref :=
  (Entry.listings image.units).flatMap fun e =>
    match image.shapeOf e with
    | .ok (shape, _) => shape.partRefs
    | .error _ => []

/-- Every part of something described is among them. -/
theorem Spaced.mem_partRefs (h : image.Spaced) {ref r : Ref}
    (hshape : image.describe ref = some shape) (hr : r ∈ shape.partRefs) : r ∈ image.partRefs := by
  have hnone (hothers : shape.others = []) : r ∈ image.partRefs := by
    have hmem : r ∈ shape.others := List.mem_append_right _ hr
    rw [hothers] at hmem
    cases hmem
  rcases h.describe_cases hshape with ⟨e, -, n, hmem⟩ | ⟨e, he, ds, hentry⟩ | ⟨-, hothers⟩
  · exact hnone (dimension_facts hmem).1
  · exact List.mem_flatMap.mpr ⟨e, he, by rw [hentry]; exact hr⟩
  · exact hnone hothers

/-- What is found by name is an entry. -/
theorem mem_listings_of_byName {pointerSize : Int} {littleEndian : Bool} {units : List Entry}
    (himage : ofUnits? pointerSize littleEndian units = some image) {key : String}
    (he : image.index.byName.get? key = some e) : e ∈ Entry.listings units := by
  have hbest := (Index.get?_byName_iff (ofUnits?_eq himage).2 key e).mp he
  obtain ⟨scope, hmet, -⟩ := Index.mem_sharing.mp hbest.mem
  exact Index.mem_listings_of_mem_met hmet

/-- Units with few dimensions and offsets of their own are an image with few dimensions. -/
theorem spaced_of_ofUnits? {pointerSize : Int} {littleEndian : Bool} {units : List Entry}
    (himage : ofUnits? pointerSize littleEndian units = some image)
    (hplaced : Entry.Placed units)
    (hfew : ∀ e ∈ Entry.listings units, e.tag = .arrayType → (lengths e).length ≤ 64) :
    image.Spaced := by
  have hunits := (ofUnits?_eq himage).1
  exact ⟨hunits ▸ hplaced, fun key e he => hunits ▸ mem_listings_of_byName himage he,
    hunits ▸ hfew⟩

end Image

/-! ## 5. Informed images

The source that answers from the description, and the exchange of the two. The invariant is about
the remembered answers as well as about the known dimensions, since a resolver may use an answer
long after it was given. -/

namespace Images

variable {image : Image} {module : String} {s : Images} {ref : Ref}

/-- The dimensions that are known in a module. -/
def known (s : Images) (module : String) : Image.Dimensions := (s.dimensions.get? module).getD []

/-- The images with other dimensions of a module. -/
def learn (s : Images) (module : String) (known : Image.Dimensions) : Images :=
  { s with dimensions := s.dimensions.put module known }

/-- A look-up that learns all dimensions before, if it is for one that is not known. -/
def informedLookup (image : Image) (s : Images) (module : String) (ref : Ref) :
    Except SourceFault (Option Shape) × Images :=
  if Image.knows (s.known module) ref then s.lookup module ref
  else (s.learn module image.dimensions).lookup module ref

/-- The image of the module was read, and the dimensions that are known are some of its. -/
structure Ready (image : Image) (module : String) (s : Images) : Prop where
  read : s.images.get? module = some (.ok image)
  faithful : Image.Faithful image (s.known module)

@[simp] theorem known_learn (s : Images) (module : String) (known : Image.Dimensions) :
    (s.learn module known).known module = known := by
  simp [learn, Images.known, Assoc.get?_put]

theorem Ready.learned (hs : Ready image module s) {known : Image.Dimensions}
    (hk : Image.Faithful image known) : Ready image module (s.learn module known) :=
  ⟨hs.read, by rwa [known_learn]⟩

/-- A look-up in a module whose image was read. -/
theorem Ready.lookup_eq (hs : Ready image module s) (ref : Ref) : s.lookup module ref =
    ((image.lookup (s.known module) ref).1.mapError .primitive,
      s.learn module (image.lookup (s.known module) ref).2) := by
  simp only [lookup, Images.image, hs.read, Images.known, learn]

/-- What a look-up leaves and answers, in images that are ready. -/
structure Answers (image : Image) (module : String) (ref : Ref) (s : Images)
    (result : Except SourceFault (Option Shape) × Images) : Prop where
  ready : Ready image module result.2
  knows : ∀ r, Image.knows (s.known module) r = true → Image.knows (result.2.known module) r = true
  answer : ∀ answer, result.1 = .ok answer → answer = image.describe ref
  target : ∀ shape r, result.1 = .ok (some shape) → shape.target = some r →
    Image.knows (result.2.known module) r = true

/-- An image answers with the description whenever it answers as if it knew all dimensions. -/
theorem answers_lookup (h : image.Spaced) (hs : Ready image module s)
    (hall : (image.lookup (s.known module) ref).1 = (image.lookup image.dimensions ref).1) :
    Answers image module ref s (s.lookup module ref) := by
  have hok {answer : Option Shape} (hanswer : (s.lookup module ref).1 = .ok answer) :
      (image.lookup (s.known module) ref).1 = .ok answer := by
    rw [hs.lookup_eq] at hanswer
    cases hlookup : (image.lookup (s.known module) ref).1 with
    | error fault =>
      simp only [hlookup] at hanswer
      cases hanswer
    | ok found =>
      simp only [hlookup] at hanswer
      cases hanswer
      rfl
  refine ⟨?_, fun r hr => ?_, fun answer hanswer => ?_, fun shape r hanswer hr => ?_⟩
  · rw [hs.lookup_eq]
    exact hs.learned (h.faithful_lookup hs.faithful ref)
  · rw [hs.lookup_eq, known_learn]
    exact Image.knows_lookup ref hr
  · exact Image.eq_describe hall (hok hanswer)
  · have hknown := h.knows_target hs.faithful (hok hanswer) hr
    rw [hs.lookup_eq, known_learn]
    exact hknown

/-- Informed images answer with the description. -/
theorem answers_informedLookup (h : image.Spaced) (hs : Ready image module s) (ref : Ref) :
    Answers image module ref s (informedLookup image s module ref) := by
  unfold informedLookup
  split
  · rename_i hknows
    exact answers_lookup h hs (h.lookup_eq hs.faithful hknows)
  · have hlearned : Answers image module ref (s.learn module image.dimensions)
        ((s.learn module image.dimensions).lookup module ref) :=
      answers_lookup h (hs.learned h.faithful_all) (by rw [known_learn])
    refine { hlearned with knows := fun r hr => hlearned.knows r ?_ }
    rw [known_learn]
    -- what is known is one of all dimensions
    cases r with
    | name text => rfl
    | id n =>
      simp only [Image.knows, Bool.or_eq_true] at hr ⊢
      refine hr.imp_right fun hhas => ?_
      obtain ⟨shape, hshape⟩ := Option.isSome_iff_exists.mp hhas
      exact Option.isSome_iff_exists.mpr ⟨shape, hs.faithful.sound n shape hshape⟩

/-- What a resolver has when it asks about the module: images that are ready, answers that are those
of the description and lead to known references, and described shapes of aggregates. -/
structure Consistent (image : Image) (module : String) (s : Images)
    (answers : Assoc Ref (Option Shape)) (placed : Assoc Handle Shape) : Prop where
  ready : Ready image module s
  answer : ∀ ref answer, answers.get? ref = some answer → answer = image.describe ref
  target : ∀ ref shape r, answers.get? ref = some (some shape) → shape.target = some r →
    Image.knows (s.known module) r = true
  placed : ∀ h shape, placed.get? h = some shape → ∃ ref, image.describe ref = some shape

/-- Whatever is asked, what is known stays consistent. -/
theorem asking_informed (h : image.Spaced) : Resolver.Asking
    ⟨source.lookingUp (informedLookup image), module⟩ image.describe (Ready image module)
    (Consistent image module) where
  truthful := fun hs => ⟨hs.ready, hs.answer⟩
  polled := fun hs => hs
  lost := by
    intro s answers placed ref fault s' hs _ _ hlookup
    have hafter := answers_informedLookup h hs.ready ref
    have hs' : (informedLookup image s module ref).2 = s' := congrArg Prod.snd hlookup
    rw [← hs']
    exact ⟨hafter.ready, hs.answer,
      fun ref shape r hshape hr => hafter.knows r (hs.target ref shape r hshape hr), hs.placed⟩
  answered := by
    intro s answers placed ref answer s' hs _ _ hlookup
    have hafter := answers_informedLookup h hs.ready ref
    have hs' : (informedLookup image s module ref).2 = s' := congrArg Prod.snd hlookup
    have hanswer : (informedLookup image s module ref).1 = .ok answer := congrArg Prod.fst hlookup
    rw [← hs']
    refine ⟨hafter.ready, fun r a ha => ?_, fun r shape t hshape ht => ?_, hs.placed⟩
    · rw [Assoc.get?_put] at ha
      split at ha
      · rename_i heq
        cases ha
        exact heq ▸ hafter.answer answer hanswer
      · exact hs.answer r a ha
    · rw [Assoc.get?_put] at hshape
      split at hshape
      · cases hshape
        exact hafter.target shape t hanswer ht
      · exact hafter.knows t (hs.target r shape t hshape ht)
  placed := by
    intro s answers placed ref shape hs hshape _ x
    refine ⟨hs.ready, hs.answer, hs.target, fun y other hother => ?_⟩
    rw [Assoc.get?_put] at hother
    split at hother
    · cases hother
      exact ⟨ref, hshape⟩
    · exact hs.placed y other hother

/-- **A resolver does not notice if images are exchanged for informed ones**, which answer from
the description. -/
theorem exchanges_informed (h : image.Spaced) (module : String) :
    Resolver.Exchanges source (informedLookup image) module image.describe (Ready image module)
      (Consistent image module) fun s ref => Image.knows (s.known module) ref = true where
  describes := {
    answers := fun hs hanswer => (answers_informedLookup h hs _).answer _ hanswer
    looked := fun ref hs => (answers_informedLookup h hs ref).ready
    polled := fun hs => hs
    titled := fun _ _ hshape => h.isTitled hshape }
  asking := asking_informed h
  same := fun _ hknows => by
    show lookup _ _ _ = informedLookup _ _ _ _
    rw [informedLookup, if_pos hknows]
  lost := by
    intro s ref fault hs hfault
    have hfault : (informedLookup image s module ref).1 = .error fault := hfault
    unfold informedLookup at hfault
    split at hfault
    · exact hfault
    · -- only dimensions are not known, and these are answered
      rename_i hknows
      obtain ⟨answer, hanswer⟩ := Image.ok_of_not_knows (by simpa using hknows) image.dimensions
      rw [(hs.learned h.faithful_all).lookup_eq, known_learn, hanswer] at hfault
      cases hfault
  polled := fun hknows => hknows
  name := fun _ _ => rfl
  target := fun hs hshape hr => hs.target _ _ _ hshape hr
  others := fun s hshape hr => Image.knows_of_isPlain _ (h.isPlain_of_describe hshape hr)
  placed := fun hs hshape => hs.placed _ _ hshape

/-! ## 6. Images in use -/

/-- Images that were read, in which the image of the module is this one, and what look-ups make of
them. -/
inductive Consulted (image : Image) (module : String) : Images → Prop
  | fresh {s : Images} : s.images.get? module = some (.ok image) → s.dimensions = [] →
      Consulted image module s
  | lookup {s : Images} (other : String) (ref : Ref) : Consulted image module s →
      Consulted image module (s.lookup other ref).2

/-- Looking up in any module keeps the image ready. -/
theorem Ready.lookup (h : image.Spaced) (hs : Ready image module s) (other : String) (ref : Ref) :
    Ready image module (s.lookup other ref).2 := by
  by_cases hother : other = module
  · rw [hother, hs.lookup_eq]
    exact hs.learned (h.faithful_lookup hs.faithful ref)
  · unfold Images.lookup
    cases s.image other (some ref) with
    | error fault => exact hs
    | ok found =>
      refine ⟨hs.read, ?_⟩
      have hkept : ((s.dimensions.put other (found.lookup ((s.dimensions.get? other).getD [])
          ref).2).get? module) = s.dimensions.get? module := by
        rw [Assoc.get?_put, if_neg hother]
      show Image.Faithful image (Option.getD _ [])
      rw [hkept]
      exact hs.faithful

/-- Images in use are ready, by induction on the look-ups. -/
theorem Consulted.ready (h : image.Spaced) (hs : Consulted image module s) :
    Ready image module s := by
  induction hs with
  | fresh hread hnone =>
    refine ⟨hread, ?_⟩
    rw [known, hnone]
    exact Image.Faithful.empty
  | lookup other ref _ ih => exact ih.lookup h other ref

end Images

end NativeTypes.Dwarf
