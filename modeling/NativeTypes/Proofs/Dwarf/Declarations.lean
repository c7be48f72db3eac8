/-
NativeTypes.Proofs.Dwarf.Declarations — what a declaration is looked up as.

A declaration is answered with the entry that the index keeps under its name,
if that entry is a definition with the tag of the declaration, and is
unsupported otherwise (`lookup_declaration`). A definition tells more than any
declaration, so further declarations never stand in its way. But the index
keeps one entry per name, whatever its tag. So a definition is out of reach
for declarations with another tag, as of a class that is defined as a structure,
and for all where an entry with another tag tells as much and is met before
(`exists_overshadowed`).
-/
import NativeTypes.Dwarf.Image
import NativeTypes.Proofs.Dwarf.Index
import NativeTypes.Proofs.TypeName.Canonical

namespace NativeTypes.Dwarf

theorem Index.isEmpty_qualify {scope : List String} {e : Entry} (hnamed : isNamed e = true) :
    (qualify scope e).isEmpty = false := by
  rw [isNamed, Bool.and_eq_true, Bool.not_eq_true', String.isEmpty_eq_false_iff] at hnamed
  rw [qualify, String.isEmpty_eq_false_iff]
  intro hempty
  have hnone := congrArg String.toList hempty
  simp only [String.toList_intercalate, List.map_append, List.map_cons, List.map_nil,
    intercalate_concat, String.toList_empty, List.append_eq_nil_iff,
    String.toList_eq_nil_iff] at hnone
  exact hnamed.2 hnone.2

/-- A definition tells more than any declaration. -/
theorem Entry.isDeclaration_of_score_le {d w : Entry} (hd : d.isDeclaration = false)
    (hle : d.score ≤ w.score) : w.isDeclaration = false := by
  cases hw : w.isDeclaration with
  | false => rfl
  | true =>
    simp only [score, hd, hw, Bool.false_eq_true, if_false, if_true] at hle
    split at hle <;> split at hle <;> split at hle <;> split at hle <;> omega

namespace Image

variable {pointerSize : Int} {littleEndian : Bool} {units : List Entry} {image : Image}

theorem ofUnits?_eq (himage : ofUnits? pointerSize littleEndian units = some image) :
    image.units = units ∧ Index.ofUnits? units = some image.index := by
  obtain ⟨index, hindex, rfl⟩ := Option.map_eq_some_iff.mp himage
  exact ⟨rfl, hindex⟩

/-- The name of an entry that the walk meets is the one inside its scope. -/
theorem nameOf_of_mem_met (himage : ofUnits? pointerSize littleEndian units = some image)
    (hplaced : Entry.Placed units) {scope : List String} {e : Entry}
    (hmet : (scope, e) ∈ Index.met units) (hnamed : Index.isNamed e = true) :
    image.nameOf e = Index.qualify scope e := by
  rw [nameOf, (Index.qualified_ofUnits? (ofUnits?_eq himage).2 hplaced hmet hnamed).1]
  simp [Index.isEmpty_qualify hnamed]

/-- What a declaration is answered with, when this entry is kept under its name. -/
def declared (image : Image) (e kept : Entry) : Shape :=
  if kept.tag = e.tag ∧ kept.isDeclaration = false then
    { image.aggregateShape kept with typeId := some kept.offset }
  else Shape.ofUnsupported (image.nameOf e)

theorem shapeOf_declaration {e kept : Entry} {key : String} (haggregate : e.tag.isAggregate = true)
    (hdeclares : e.isDeclaration = true) (hname : (image.nameOf e).isEmpty = false)
    (hkey : TypeName.nameKey? (image.nameOf e) = some key)
    (hkept : image.index.byName.get? key = some kept) :
    image.shapeOf e = .ok (image.declared e kept, []) := by
  have hdefinition : image.definitionOf? e =
      some (if kept.tag = e.tag ∧ kept.isDeclaration = false then kept else e) := by
    simp only [definitionOf?, hdeclares, hname, hkey, hkept, Bool.not_true, Bool.or_false,
      Bool.false_eq_true, if_false, Option.map_some, Option.some.injEq]
    by_cases hfits : kept.tag = e.tag ∧ kept.isDeclaration = false
    · rw [if_pos hfits, Option.filter_some]
      simp [hfits]
    · rw [if_neg hfits, Option.filter_some]
      simp [hfits]
  rw [shapeOf, if_pos haggregate, hdefinition, declared]
  by_cases hfits : kept.tag = e.tag ∧ kept.isDeclaration = false
  · simp [hfits]
  · simp [hfits, hdeclares]

/-- The look-up of a declared structure, class or union by its offset. It is answered with the
entry that is kept under its name, the first of those that tell most, if that is a definition with
the declaration's tag. So it is wherever some definition with that tag tells more than every entry
of the name with another tag. -/
theorem lookup_declaration (himage : ofUnits? pointerSize littleEndian units = some image)
    (hplaced : Entry.Placed units) {scope : List String} {e : Entry}
    (hmet : (scope, e) ∈ Index.met units) (hnamed : Index.isNamed e = true)
    (haggregate : e.tag.isAggregate = true) (hdeclares : e.isDeclaration = true)
    (known : Dimensions) :
    ∃ key kept, TypeName.nameKey? (Index.qualify scope e) = some key ∧
      Index.IsBest (Index.sharing key (Index.met units)) kept ∧
      image.lookup known (.id e.offset) = (.ok (some (image.declared e kept)), known) ∧
      ∀ d ∈ Index.sharing key (Index.met units), d.isDeclaration = false → d.tag = e.tag →
        (∀ x ∈ Index.sharing key (Index.met units), x.tag ≠ e.tag → x.score < d.score) →
        kept.tag = e.tag ∧ kept.isDeclaration = false := by
  obtain ⟨hunits, hindex⟩ := ofUnits?_eq himage
  have hnameOf := nameOf_of_mem_met himage hplaced hmet hnamed
  obtain ⟨-, key, hkey⟩ := Index.qualified_ofUnits? hindex hplaced hmet hnamed
  have hshared : e ∈ Index.sharing key (Index.met units) :=
    Index.mem_sharing.mpr ⟨scope, hmet, hnamed, hkey⟩
  obtain ⟨kept, hkept, hbest⟩ := Index.byName_ofUnits? hindex (List.ne_nil_of_mem hshared)
  refine ⟨key, kept, hkey, hbest, ?_, fun d hd hdefines htag hothers => ?_⟩
  · have hlisted := Index.mem_listings_of_mem_met hmet
    have hentry : image.entry? e.offset = some e := by
      rw [ entry?, hunits, hplaced.findIn? hlisted]
    have hshape := shapeOf_declaration haggregate hdeclares
      (hnameOf ▸ Index.isEmpty_qualify hnamed) (hnameOf ▸ hkey) hkept
    rw [lookup, if_neg (Int.not_lt.mpr (hplaced.nonneg e hlisted)), hentry]
    simp only [lookupEntry, hshape]
    rfl
  · have hle := hbest.score_le hd
    refine ⟨?_, Entry.isDeclaration_of_score_le hdefines hle⟩
    by_contra hother
    exact Int.not_lt.mpr hle (hothers kept hbest.mem hother)

/-- The declaration of a structure. -/
def fooDeclared : Entry :=
  .mk 1 .structureType [(.name, .text "Foo"), (.declaration, .flag true)] []

/-- A definition of the structure, with one member. -/
def fooDefined : Entry :=
  .mk 2 .structureType [(.name, .text "Foo"), (.byteSize, .integer 4)]
    [.mk 3 .member [(.name, .text "x"), (.location, .integer 0)] []]

/-- Units of which the first announces an enumeration, the second declares the structure and gives
its name to a typedef, and the third defines it. -/
def announced : List Entry :=
  [.mk 10 (.other "compile_unit") []
      [.mk 11 .enumerationType
        [(.name, .text "Foo"), (.byteSize, .integer 4), (.declaration, .flag true)] []],
    .mk 12 (.other "compile_unit") [] [fooDeclared, .mk 13 .typedef [(.name, .text "Foo")] []],
    .mk 14 (.other "compile_unit") [] [fooDefined]]

theorem lookup_declaration_announced :
    Entry.Placed announced ∧ ∃ image, ofUnits? 8 true announced = some image ∧
      ∃ key kept, Index.IsBest (Index.sharing key (Index.met announced)) kept ∧
        image.lookup [] (.id 1) = (.ok (some (image.declared fooDeclared kept)), []) ∧
        kept.tag = .structureType ∧ kept.isDeclaration = false := by
  have hplaced : Entry.Placed announced := ⟨by decide, by decide⟩
  have hsome : (ofUnits? 8 true announced).isSome = true := by decide +kernel
  obtain ⟨image, himage⟩ := Option.isSome_iff_exists.mp hsome
  have hdeclared : ([], fooDeclared) ∈ Index.met announced := .tail _ (.head _)
  obtain ⟨key, kept, hkey, hbest, hlookup, hkept⟩ :=
    lookup_declaration himage hplaced hdeclared rfl rfl rfl []
  have hothers : ∀ m ∈ Index.met announced, m.2.tag ≠ .structureType → m.2.score < 8 := by
    decide +kernel
  have hshared : fooDefined ∈ Index.sharing key (Index.met announced) :=
    Index.mem_sharing.mpr ⟨[], .tail _ (.tail _ (.tail _ (.head _))), rfl, hkey⟩
  refine ⟨hplaced, image, himage, key, kept, hbest, hlookup,
    hkept fooDefined hshared rfl rfl fun x hx hother => ?_⟩
  obtain ⟨scope, hmet, -⟩ := Index.mem_sharing.mp hx
  exact hothers (scope, x) hmet hother

/-- Units of which the first has an enumeration, the second declares a structure of its name and the
third defines that. -/
def overshadowed : List Entry :=
  [.mk 10 (.other "compile_unit") []
      [.mk 11 .enumerationType [(.name, .text "Foo"), (.byteSize, .integer 4)]
        [.mk 12 .enumerator [(.name, .text "a"), (.constValue, .integer 0)] []]],
    .mk 13 (.other "compile_unit") [] [fooDeclared],
    .mk 14 (.other "compile_unit") [] [fooDefined]]

/-- The structure is defined, but after an enumeration of its name that tells as much: its
declaration is unsupported. -/
theorem exists_overshadowed :
    ∃ units e d, Entry.Placed units ∧
      ([], e) ∈ Index.met units ∧ ([], d) ∈ Index.met units ∧ e.name = d.name ∧
      e.tag = .structureType ∧ d.tag = .structureType ∧
      e.isDeclaration = true ∧ d.isDeclaration = false ∧
      (ofUnits? 8 true units).map (fun image => (image.lookup [] (.id e.offset)).1.toOption) =
        some (some (some (Shape.ofUnsupported "Foo"))) := by
  refine ⟨overshadowed, fooDeclared, fooDefined, ⟨by decide, by decide⟩, .tail _ (.head _),
    .tail _ (.tail _ (.head _)), rfl, rfl, rfl, rfl, rfl, ?_⟩
  decide +kernel

end Image

end NativeTypes.Dwarf
