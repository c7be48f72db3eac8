/-
NativeTypes.Proofs.Writer.Properties — the properties of an accessor class.

A class has one property for every base but the inherited one and one for every
field. The bases are named one after the other, then the fields clear of the
bases, so no two properties have the same name. The names of fields are fit to
be members. Those of bases all begin with `base_`, which no keyword does and
one attribute of the runtime: the property of a base that is called `class`
takes the place of the function that properties of bases are read with
(`properties_apart`).

The names of fields are checked against a list of unfit words, those of bases
are not. So what has to be found is which of these words a base can become, and
the mark in front answers that by one look through the list (`eq_of_baseMark`).
A number is put behind a name that is taken, which cannot make it one of the
words again.
-/
import NativeTypes.Proofs.Naming.Members
import NativeTypes.Writer.Accessor

namespace NativeTypes

/-! ## 1. Names that begin with `base_` -/

namespace Naming

/-- Identifier characters in front of a name are in front of its identifier. -/
theorem exists_parts_append {front : List Char} (hne : front ≠ [])
    (hfront : ∀ c ∈ front, isIdentifierChar c) (cs : List Char) :
    ∃ rest ps, parts (front ++ cs) = (front ++ rest) :: ps := by
  induction front with
  | nil => exact absurd rfl hne
  | cons c front ih =>
    obtain ⟨hc, hfront⟩ := List.forall_mem_cons.mp hfront
    rw [List.cons_append, parts, if_pos hc]
    cases front with
    | nil =>
      split
      · rename_i p ps _ _
        exact ⟨p, ps, rfl⟩
      · rename_i ps _ _
        exact ⟨[], _, rfl⟩
    | cons d front =>
      obtain ⟨rest, ps, hparts⟩ := ih (List.cons_ne_nil d front) hfront
      have hd : isIdentifierChar d := hfront d List.mem_cons_self
      refine ⟨rest, ps, ?_⟩
      rw [hparts]
      simp [hd]

/-- The characters that the name of a base begins with. -/
def baseMark : List Char := ['b', 'a', 's', 'e', '_']

theorem exists_sanitize_base (label : String) :
    ∃ rest, (sanitize ("base_" ++ label)).toList = baseMark ++ rest := by
  have hspell : spellOut ("base_" ++ label).toList = baseMark ++ spellOut label.toList := by
    rw [String.toList_append, spellOut, List.flatMap_append]
    rfl
  have hne : baseMark ≠ [] := by decide
  have hchars : ∀ c ∈ baseMark, isIdentifierChar c := List.all_eq_true.mp (by decide)
  obtain ⟨rest, ps, hparts⟩ := exists_parts_append hne hchars (spellOut label.toList)
  rw [sanitize, String.toList_ofList, sanitizeChars, hspell, hparts]
  dsimp only
  cases ps with
  | nil => exact ⟨rest, by rw [List.intercalate_singleton]; rfl⟩
  | cons p ps =>
    refine ⟨rest ++ (['_'] ++ List.intercalate ['_'] (p :: ps)), ?_⟩
    rw [List.intercalate_cons_cons, List.append_assoc, List.append_assoc]
    rfl

/-- Of the words that no member may be called, the one that a base may become. -/
theorem eq_of_baseMark {word : String} (h : word ∈ unfitWords)
    (hmark : ∃ rest, word.toList = baseMark ++ rest) : word = "base_class" := by
  have honly : ∀ word ∈ unfitWords, baseMark <+: word.toList → word = "base_class" := by
    decide
  obtain ⟨rest, hrest⟩ := hmark
  exact honly word h ⟨rest, hrest.symm⟩

end Naming

/-! ## 2. Names of properties -/

namespace Accessor

section

variable (g : Graph) (names : NameTable)

/-- The name that the property of a base starts from. -/
def baseStem (b : BasePart) : String :=
  Naming.sanitize ("base_" ++ (names.get? b.type).getD (g.displayName b.type))

/-- The bases of an aggregate that become properties: all but the inherited one. -/
def exposedParts (a : Aggregate) : List BasePart := withoutFirst (isInheritable names) a.bases

theorem length_exposedParts (a : Aggregate) :
    (exposedParts names a).length + (inherited? names a).toList.length = a.bases.length := by
  unfold exposedParts inherited?
  induction a.bases with
  | nil => rfl
  | cons b bs ih =>
    rw [withoutFirst, List.find?_cons]
    cases isInheritable names b with
    | true => simp
    | false =>
      simp only [Bool.false_eq_true, if_false, List.length_cons]
      omega

/-- Every base that is exposed has a property. -/
theorem map_part_exposeBases (used : List String) (bs : List BasePart) :
    (exposeBases g names used bs).map ExposedBase.part = bs := by
  induction bs generalizing used with
  | nil => rfl
  | cons b bs ih => rw [exposeBases, List.map_cons, ih]

theorem map_property_exposeBases (used : List String) (bs : List BasePart) :
    (exposeBases g names used bs).map ExposedBase.property =
      Naming.allotEach used (bs.map (baseStem g names)) := by
  induction bs generalizing used with
  | nil => rfl
  | cons b bs ih =>
    rw [exposeBases, List.map_cons, List.map_cons, Naming.allotEach, ih]
    rfl

/-- The bases are named one after the other. -/
theorem reserved_eq (a : Aggregate) :
    reserved g names a = Naming.allotEach [] ((exposedParts names a).map (baseStem g names)) :=
  map_property_exposeBases g names [] (exposedParts names a)

variable {g names} {a : Aggregate}

/-- The property of a base has the name that the base starts from, or one with a number. -/
theorem exists_part_of_mem_reserved {name : String} (h : name ∈ reserved g names a) :
    ∃ b ∈ exposedParts names a, name = baseStem g names b ∨
      ∃ n, name = Naming.suffixed (baseStem g names b) n := by
  rw [reserved_eq] at h
  obtain ⟨stem, hstem, taken, hallotted⟩ := Naming.exists_stem_of_mem h
  obtain ⟨b, hb, rfl⟩ := List.mem_map.mp hstem
  exact ⟨b, hb, hallotted.shape⟩

/-- So it begins as the names of bases do. -/
theorem exists_baseMark {name : String} (h : name ∈ reserved g names a) :
    ∃ rest, name.toList = Naming.baseMark ++ rest := by
  obtain ⟨b, -, hname⟩ := exists_part_of_mem_reserved h
  obtain ⟨rest, hrest⟩ : ∃ rest, (baseStem g names b).toList = Naming.baseMark ++ rest :=
    Naming.exists_sanitize_base _
  rcases hname with rfl | ⟨n, rfl⟩
  · exact ⟨rest, hrest⟩
  · refine ⟨rest ++ ("_".toList ++ (toString n).toList), ?_⟩
    rw [Naming.suffixed, String.toList_append, String.toList_append, hrest]
    simp only [List.append_assoc]

theorem not_mem_reserved_of_underscored :
    ∀ word ∈ ["_fields", "_pack", "_anonymous"], word ∉ reserved g names a := by
  intro word hword hmem
  have hmark : ∀ word ∈ ["_fields", "_pack", "_anonymous"],
      ¬ Naming.baseMark <+: word.toList := by
    decide
  obtain ⟨rest, hrest⟩ := exists_baseMark hmem
  exact hmark word hword ⟨rest, hrest.symm⟩

theorem baseClass_mem_reserved_iff :
    "base_class" ∈ reserved g names a ↔
      ∃ b ∈ exposedParts names a, baseStem g names b = "base_class" := by
  constructor
  · intro h
    obtain ⟨b, hb, hname | ⟨n, hname⟩⟩ := exists_part_of_mem_reserved h
    · exact ⟨b, hb, hname.symm⟩
    · have hunfit : "base_class" ∈ Naming.unfitWords := by decide
      exact absurd (hname ▸ hunfit) (Naming.suffixed_not_mem_unfitWords _ n)
  · rintro ⟨b, hb, hstem⟩
    rw [reserved_eq]
    exact Naming.mem_allotEach_of_mem [] (List.mem_map.mpr ⟨b, hb, hstem⟩) List.not_mem_nil

end

/-- Names that fields are given are names that there are. -/
theorem map_snd_zip_sublist (fields : List FieldPart) (memberNames : List String) :
    ((fields.zip memberNames).map Prod.snd).Sublist memberNames := by
  induction fields generalizing memberNames with
  | nil => exact List.nil_sublist _
  | cons f fields ih =>
    cases memberNames with
    | nil => exact List.nil_sublist _
    | cons name memberNames => exact (ih memberNames).cons_cons name

/-- Bases first, then fields. -/
theorem map_name_properties (g : Graph) (names : NameTable) (reference : Handle → String)
    (memberNames : List String) (a : Aggregate) :
    (properties g names reference memberNames a).map Property.name =
      reserved g names a ++ (a.fields.zip memberNames).map Prod.snd := by
  rw [properties, List.map_append, List.map_map, List.map_map]
  rfl

/-- **The properties of a class do not clash, and shadow one function at most.** There is one
for every base but the inherited one and one for every field, as far as the fields have names.
No two have the same name, and none is called like a keyword. The only attribute of the runtime
that one of them may be called is `base_class`, and one is if a base starts from that name. -/
theorem properties_apart (g : Graph) (names : NameTable) (reference : Handle → String)
    (raws : List String) (a : Aggregate) :
    let ps := properties g names reference (Naming.allocateMembers raws (reserved g names a)) a
    (a.fields.length ≤ raws.length →
      ps.length + (inherited? names a).toList.length = a.bases.length + a.fields.length) ∧
    (ps.map Property.name).Nodup ∧
    (∀ p ∈ ps, p.name ∉ Naming.keywords ∧
      (p.name ∈ Naming.memberReserved → p.name = "base_class")) ∧
    ((∃ p ∈ ps, p.name = "base_class") ↔
      ∃ b ∈ exposedParts names a, baseStem g names b = "base_class") := by
  intro ps
  let members := (a.fields.zip (Naming.allocateMembers raws (reserved g names a))).map Prod.snd
  have hnames : ps.map Property.name = reserved g names a ++ members :=
    map_name_properties g names reference _ a
  have hsub : members.Sublist (Naming.allocateMembers raws (reserved g names a)) :=
    map_snd_zip_sublist _ _
  have hfit : ∀ name ∈ members, name ∉ Naming.unfitWords := fun name hname =>
    Naming.not_mem_unfitWords not_mem_reserved_of_underscored (hsub.subset hname)
  have hunfit : ∀ p ∈ ps, p.name ∈ Naming.unfitWords →
      p.name ∈ reserved g names a ∧ p.name = "base_class" := by
    intro p hp hword
    have hname : p.name ∈ reserved g names a ++ members := hnames ▸ List.mem_map_of_mem hp
    rcases List.mem_append.mp hname with hbase | hmember
    · exact ⟨hbase, Naming.eq_of_baseMark hword (exists_baseMark hbase)⟩
    · exact absurd hword (hfit _ hmember)
  refine ⟨fun hlength => ?_, ?_, fun p hp => ⟨fun hkeyword => ?_, fun hmember => ?_⟩, ?_⟩
  · have hcount := length_exposedParts names a
    have hexposed : (exposed g names a).length = (exposedParts names a).length := by
      rw [← map_part_exposeBases g names [] (exposedParts names a), List.length_map]
      rfl
    have hmembers := Naming.length_allocateMembers raws (reserved g names a)
    simp only [ps, properties, List.length_append, List.length_map, List.length_zip]
    omega
  · rw [hnames]
    refine List.Nodup.append ?_ (hsub.nodup (Naming.nodup_allocateMembers raws _)) ?_
    · rw [reserved_eq]
      exact (Naming.allotEach_apart [] _).1
    · exact fun name hbase hmember => Naming.not_mem_reserved (hsub.subset hmember) hbase
  · have hclass := (hunfit p hp (List.mem_append_right _ hkeyword)).2
    rw [hclass] at hkeyword
    exact absurd hkeyword (by decide)
  · exact (hunfit p hp (List.mem_append_left _ hmember)).2
  · rw [← baseClass_mem_reserved_iff]
    constructor
    · rintro ⟨p, hp, hname⟩
      exact hname ▸ (hunfit p hp (hname ▸ by decide)).1
    · intro hclass
      have hmem : "base_class" ∈ ps.map Property.name := hnames ▸ List.mem_append_left _ hclass
      exact List.mem_map.mp hmem

/-- A structure that has another one twice as a base, and fields that are called like a base
and like a keyword. -/
def twiceDerived : Graph × Aggregate :=
  (⟨#[.aggregate { name := "B", size := some 4 }, .primitive .int32]⟩,
    { name := "D", size := some 16, bases := [⟨0, 0, false⟩, ⟨0, 4, false⟩]
      fields := [⟨"base_B", 1, 8, none, none, false⟩, ⟨"class", 1, 12, none, none, false⟩] })

example : (properties twiceDerived.1 [(0, "B")] (fun _ => "") (fieldNames twiceDerived.1 [(0, "B")]
    twiceDerived.2) twiceDerived.2).map Property.name = ["base_B", "base_B_", "class_"] := by
  decide

theorem properties_apart_twiceDerived :
    let ps := properties twiceDerived.1 [(0, "B")] (fun _ => "")
      (fieldNames twiceDerived.1 [(0, "B")] twiceDerived.2) twiceDerived.2
    twiceDerived.2.fields.length ≤ ["base_B", "class"].length ∧
      ps.length + 1 = 2 + 2 ∧ (ps.map Property.name).Nodup ∧ ¬ ∃ p ∈ ps, p.name = "base_class" := by
  obtain ⟨hcount, hnodup, -, hclass⟩ :=
    properties_apart twiceDerived.1 [(0, "B")] (fun _ => "") ["base_B", "class"] twiceDerived.2
  have hlength : twiceDerived.2.fields.length ≤ ["base_B", "class"].length := by decide
  refine ⟨hlength, hcount hlength, hnodup, fun hmem => ?_⟩
  exact absurd (hclass.mp hmem) (by decide)

/-- A structure with a base of an unknown type that is called `class`. -/
def derivedFromUnknown : Graph × Aggregate :=
  (⟨#[.undefined "class", .primitive .int32]⟩,
    { name := "D", size := some 8, bases := [⟨0, 0, false⟩]
      fields := [⟨"x", 1, 4, none, none, false⟩] })

/-- The property of such a base takes the place of the function that it calls. -/
theorem exists_shadowing :
    ∃ p ∈ properties derivedFromUnknown.1 [] (derivedFromUnknown.1.typeReference true (some []))
        (fieldNames derivedFromUnknown.1 [] derivedFromUnknown.2) derivedFromUnknown.2,
      p.name ∈ Naming.memberReserved ∧ p.value = "self.base_class(0, Variable)" := by
  have hdisplay : derivedFromUnknown.1.displayName 0 = "class" := by cbv
  have hreference : derivedFromUnknown.1.typeReference true (some []) 0 = "Variable" := by cbv
  have hexposed : exposed derivedFromUnknown.1 [] derivedFromUnknown.2 =
      [⟨"base_class", ⟨0, 0, false⟩⟩] := by
    have hproperty : Naming.firstFree [] (Naming.sanitize ("base_" ++ "class")) = "base_class" := by
      decide
    show [ExposedBase.mk (Naming.firstFree [] (Naming.sanitize
      ("base_" ++ derivedFromUnknown.1.displayName 0))) ⟨0, 0, false⟩] = _
    rw [hdisplay, hproperty]
  refine ⟨baseProperty (derivedFromUnknown.1.typeReference true (some []))
    ⟨"base_class", ⟨0, 0, false⟩⟩, List.mem_append_left _ (List.mem_map_of_mem ?_), ?_, ?_⟩
  · rw [hexposed]
    exact List.mem_cons_self
  · show "base_class" ∈ Naming.memberReserved
    decide
  · show "self.base_class(" ++ BasePart.place ⟨0, 0, false⟩ ++ ", " ++
      derivedFromUnknown.1.typeReference true (some []) 0 ++ ")" = _
    rw [hreference]
    decide

end Accessor

end NativeTypes
