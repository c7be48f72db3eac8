/-
NativeTypes.Proofs.Writer.EntryNames — names in a list of members.

Names come from four sources: bases, fields, the count of paddings and the
count of fillers in each storage unit. `Origin` says where the name of an entry
comes from. No two entries have one origin, unless two units with fillers stand
at places that read alike: parts are dealt with once, paddings are numbered on
(`Numbered`), and in a structure each unit starts behind those before it
(`Behind`), since fields are placed by offset. Names of bases begin with
`base_`, which nothing generated does, and names of fields stay clear of bases;
but nobody keeps them clear of paddings and fillers. So the names are different
exactly if no field is called like one of these (`names_apart`), and a field
can be.

Names are compared in two stages, since the list of entries can have a
collision for two reasons. Different origins may give one name: this is
excluded by how names begin (`mark`), except for the names of fields, which may
begin in any way. And one origin may have two entries: this is a matter of the
layout, and not of names. Keeping the two apart is what makes the result an
equivalence.
-/
import NativeTypes.Proofs.Naming.Members
import NativeTypes.Proofs.Text.Decimal
import NativeTypes.Proofs.Writer.Steps

namespace NativeTypes.Ctypes

/-! ## 1. Generated names

Names that are made up begin with two characters that say which kind they are of. -/

/-- Paddings have different numbers. -/
theorem padName_injective : Function.Injective Placement.padName := by
  intro m n h
  exact Text.decimal_injective ((String.append_right_inj "_pad").mp h)

/-- The name of a filler tells the place of its unit and its number. -/
theorem fillerName_inj {place place' : String} {m n : Nat}
    (h : Entry.fillerName place m = Entry.fillerName place' n) : place = place' ∧ m = n := by
  have hdigits (n : Nat) : '_' ∉ (toString n).toList := by
    intro hmem
    rw [Nat.toString_eq_ofList_toDigits, String.toList_ofList] at hmem
    exact absurd (Nat.isDigit_of_mem_toDigits (by decide) (by decide) hmem) (by decide)
  have hchars (place : String) (n : Nat) : (Entry.fillerName place n).toList =
      ("_bits" ++ place).toList ++ '_' :: (toString n).toList := by
    simp [Entry.fillerName, String.toList_append]
  have hlist := congrArg String.toList h
  rw [hchars, hchars] at hlist
  obtain ⟨hplace, hnumber⟩ := Text.append_mark_inj (hdigits m) (hdigits n) hlist
  exact ⟨(String.append_right_inj "_bits").mp (String.toList_inj.mp hplace),
    Text.decimal_injective (String.toList_inj.mp hnumber)⟩

/-- The two characters that a name begins with. -/
def mark (name : String) : List Char := name.toList.take 2

theorem mark_append {front : String} (h : 2 ≤ front.toList.length) (rest : String) :
    mark (front ++ rest) = mark front := by
  rw [mark, String.toList_append, List.take_append_of_le_length h, mark]

theorem mark_padName (n : Nat) : mark (Placement.padName n) = ['_', 'p'] :=
  mark_append (by decide) _

theorem mark_fillerName (place : String) (n : Nat) :
    mark (Entry.fillerName place n) = ['_', 'b'] := by
  rw [Entry.fillerName, String.append_assoc, String.append_assoc]
  exact mark_append (by decide) _

section

variable (names : NameTable)

/-- The name that the member for a base starts from. -/
def baseStem (b : BasePart) : String := "base_" ++ (names.get? b.type).getD "base"

/-- Bases are named one after the other, each clear of those before it. -/
theorem baseNames_eq (used : List String) (bs : List BasePart) :
    baseNames names used bs = Naming.allotEach used (bs.map (baseStem names)) := by
  induction bs generalizing used with
  | nil => rfl
  | cons b bs ih =>
    rw [baseNames, List.map_cons, Naming.allotEach]
    exact congrArg _ (ih _)

theorem nodup_baseNames (bs : List BasePart) : (baseNames names [] bs).Nodup := by
  rw [baseNames_eq]
  exact (Naming.allotEach_apart [] _).1

variable {names} in
theorem mark_of_mem_baseNames {bs : List BasePart} {name : String}
    (h : name ∈ baseNames names [] bs) : mark name = ['b', 'a'] := by
  rw [baseNames_eq] at h
  obtain ⟨stem, hstem, taken, hallotted⟩ := Naming.exists_stem_of_mem h
  obtain ⟨b, -, rfl⟩ := List.mem_map.mp hstem
  have hmark : mark (baseStem names b) = ['b', 'a'] := mark_append (by decide) _
  rcases hallotted.shape with rfl | ⟨n, rfl⟩
  · exact hmark
  · rw [Naming.suffixed, String.append_assoc, mark_append, hmark]
    rw [baseStem, String.toList_append, List.length_append]
    exact Nat.le_trans (by decide) (Nat.le_add_right ("base_".toList.length) _)

end

/-! ## 2. Where a name comes from -/

/-- What an entry has its name from. -/
inductive Origin
  | part (x : Part)
  | padding (name : String)
  | gap (place : String) (number : Nat)
  deriving DecidableEq

/-- Where the name of an entry comes from. -/
def Entry.origin : Entry → Origin
  | padding name _ => .padding name
  | base index .. => .part (.base index)
  | field index .. | bits index .. => .part (.field index)
  | filler first number .. => .gap first.place number

namespace Origin

/-- The part that a name is for; that of padding or a filler is for none. -/
def part? : Origin → Option Part
  | part x => some x
  | padding _ | gap .. => none

@[simp] theorem part?_origin (e : Entry) : e.origin.part? = e.part? := by
  cases e <;> rfl

/-- The name that comes from there, if bases and fields have the given names. -/
inductive Gives (bases members : List String) : Origin → String → Prop
  | base {i : Nat} {name : String} :
    bases[i]? = some name → Gives bases members (part (.base i)) name
  | field {i : Nat} {name : String} :
    members[i]? = some name → Gives bases members (part (.field i)) name
  | padding {n : Nat} {name : String} :
    name = Placement.padName n → Gives bases members (padding name) name
  | gap {place : String} {n : Nat} {name : String} :
    name = Entry.fillerName place n → Gives bases members (gap place n) name

/-- One is for a field, and the other for no part. -/
def Clashes (x y : Origin) : Prop := (∃ i, x.part? = some (.field i)) ∧ y.part? = none

variable {bases members : List String} {x y : Origin} {name name' : String}

/-- An origin gives one name. -/
theorem Gives.unique (h : x.Gives bases members name) (h' : x.Gives bases members name') :
    name = name' := by
  cases h with
  | base hi =>
    cases h' with
    | base hj => exact Option.some.inj (hi.symm.trans hj)
  | field hi =>
    cases h' with
    | field hj => exact Option.some.inj (hi.symm.trans hj)
  | padding _ =>
    cases h' with
    | padding _ => rfl
  | gap hn =>
    cases h' with
    | gap hn' => exact hn.trans hn'.symm

/-- One name comes from one place, unless a field is called like something generated: names of
bases, paddings and fillers begin differently. -/
theorem Gives.eq_or_clashes (hbases : bases.Nodup) (hmarks : ∀ b ∈ bases, mark b = ['b', 'a'])
    (hmembers : members.Nodup) (hclear : ∀ m ∈ members, m ∉ bases)
    (h : x.Gives bases members name) (h' : y.Gives bases members name) :
    x = y ∨ x.Clashes y ∨ y.Clashes x := by
  have hbase {i : Nat} (hi : bases[i]? = some name) : mark name = ['b', 'a'] :=
    hmarks name (List.mem_of_getElem? hi)
  have hpad {n : Nat} (hn : name = Placement.padName n) : mark name = ['_', 'p'] :=
    hn ▸ mark_padName n
  have hgap {place : String} {n : Nat} (hn : name = Entry.fillerName place n) :
      mark name = ['_', 'b'] := hn ▸ mark_fillerName place n
  have hdiffer {xs : List String} (hxs : xs.Nodup) {i j : Nat} (hi : xs[i]? = some name)
      (hj : xs[j]? = some name) : i = j := by
    obtain ⟨hlt, -⟩ := List.getElem?_eq_some_iff.mp hi
    exact (List.getElem?_inj hlt hxs).mp (hi.trans hj.symm)
  cases h with
  | base hi =>
    cases h' with
    | base hj => exact .inl (congrArg (part ∘ Part.base) (hdiffer hbases hi hj))
    | field hj => exact absurd (List.mem_of_getElem? hi) (hclear _ (List.mem_of_getElem? hj))
    | padding hn => exact absurd ((hbase hi).symm.trans (hpad hn)) (by decide)
    | gap hn => exact absurd ((hbase hi).symm.trans (hgap hn)) (by decide)
  | field hi =>
    cases h' with
    | base hj => exact absurd (List.mem_of_getElem? hj) (hclear _ (List.mem_of_getElem? hi))
    | field hj => exact .inl (congrArg (part ∘ Part.field) (hdiffer hmembers hi hj))
    | padding _ => exact .inr (.inl ⟨⟨_, rfl⟩, rfl⟩)
    | gap _ => exact .inr (.inl ⟨⟨_, rfl⟩, rfl⟩)
  | padding hn =>
    cases h' with
    | base hj => exact absurd ((hbase hj).symm.trans (hpad hn)) (by decide)
    | field _ => exact .inr (.inr ⟨⟨_, rfl⟩, rfl⟩)
    | padding _ => exact .inl rfl
    | gap hn' => exact absurd ((hpad hn).symm.trans (hgap hn')) (by decide)
  | gap hn =>
    cases h' with
    | base hj => exact absurd ((hbase hj).symm.trans (hgap hn)) (by decide)
    | field _ => exact .inr (.inr ⟨⟨_, rfl⟩, rfl⟩)
    | padding hn' => exact absurd ((hpad hn').symm.trans (hgap hn)) (by decide)
    | gap hn' =>
      obtain ⟨rfl, rfl⟩ := fillerName_inj (hn.symm.trans hn')
      exact .inl rfl

end Origin

section

variable {g : Graph} {names : NameTable} {members : List String} {a : Aggregate}

/-- A field that is given a place has a name, unless one is missing. -/
theorem index_lt_of_mem_entries (hnamed : lacksName members a (layoutAs g names members a) = false)
    {e : Entry} (he : e ∈ (layoutAs g names members a).entries) {i : Nat}
    (hpart : e.part? = some (.field i)) : i < members.length := by
  rw [lacksName, Bool.or_eq_false_iff, List.any_eq_false, List.any_eq_false] at hnamed
  cases made_layoutAs g names members a e he with
  | @field m _ _ hm hplain _ =>
    cases hpart
    by_contra hlt
    obtain ⟨hfield, -⟩ := getElem?_of_mem_membersOf hm
    have hbehind : (a.fields.drop members.length)[m.index - members.length]? = some m.field := by
      rw [List.getElem?_drop, Nat.add_sub_cancel' (Nat.not_lt.mp hlt)]
      exact hfield
    exact hnamed.1 _ (List.mem_of_getElem? hbehind) (by simp [hplain])
  | bits hm =>
    cases hpart
    simpa using hnamed.2 _ he
  | base _ _ _ => cases hpart
  | padding _ _ => cases hpart
  | filler _ => cases hpart

/-- **The name of an entry comes from its origin.** -/
theorem gives_origin (hnamed : lacksName members a (layoutAs g names members a) = false)
    {e : Entry} (he : e ∈ (layoutAs g names members a).entries) :
    e.origin.Gives (baseNames names [] a.bases) members e.name := by
  have hmember {m : Member} (hm : m ∈ membersOf members a) (hlt : m.index < members.length) :
      members[m.index]? = some m.name := by
    obtain ⟨-, hname⟩ := getElem?_of_mem_membersOf hm
    rw [hname, List.getD_eq_getElem?_getD, List.getElem?_eq_getElem hlt, Option.getD_some]
  have hindex {i : Nat} := index_lt_of_mem_entries (i := i) hnamed he
  cases made_layoutAs g names members a e he with
  | padding n bytes => exact .padding rfl
  | base hb _ _ => exact .base (List.getElem?_zip_eq_some.mp hb).1
  | field hm _ _ => exact .field (hmember hm (hindex rfl))
  | bits hm => exact .field (hmember hm (hindex rfl))
  | filler _ => exact .gap rfl

end

/-! ## 3. Paddings and fillers

How paddings and fillers are counted, along the steps of the layout. The list `us` holds the
units that were placed so far, each with the number of its fillers. -/

/-- The fillers of a unit that has so many of them. -/
def fillersOf (u : FieldPart × Nat) : List (FieldPart × Nat) :=
  (List.range u.2).map fun k => (u.1, k)

/-- Paddings are numbered on, and the fillers of each unit from zero. -/
structure Numbered (p : Placement) (us : List (FieldPart × Nat)) : Prop where
  paddings : p.entries.filterMap Entry.padding? =
    (List.range p.pads).map Placement.padName
  gaps : p.entries.filterMap Entry.gap? = us.flatMap fillersOf

/-- Units of a structure start one behind the other, and what is still to be placed behind all
of them, or it overlaps. -/
structure Behind (us : List (FieldPart × Nat)) (p : Placement) (ms : List Member) : Prop where
  rising : us.Pairwise fun u v => u.1.offset < v.1.offset
  sorted : ms.Pairwise fun m m' => m.field.offset ≤ m'.field.offset
  behind : ∀ u ∈ us, ∀ m ∈ ms, u.1.offset < m.field.offset ∨ m.field.offset < p.cursor

section

variable {isUnion : Bool} {p p' : Placement} {us : List (FieldPart × Nat)}

/-- What is left out counts nothing. -/
theorem Kept.numbered (h : Kept p p') (hp : Numbered p us) : Numbered p' us where
  paddings := by rw [h.entries, h.pads, hp.paddings]
  gaps := by rw [h.entries, hp.gaps]

/-- Padding has the next number, or there is none. -/
theorem Numbered.padTo (hp : Numbered p us) (offset : Int) :
    Numbered (p.padTo isUnion offset) us := by
  rcases padTo_step isUnion p offset with hsame | ⟨-, -, hpadded⟩
  · rwa [hsame]
  · rw [hpadded]
    constructor
    · simp [hp.paddings, List.range_succ, Entry.padding?]
    · simp [hp.gaps, Entry.gap?]

/-- A step with new units and no padding but the one in front. -/
theorem Placed.numbered {offset stop : Int} {es : List Entry}
    (h : Placed isUnion p offset es stop p') (hp : Numbered p us)
    (hpads : es.filterMap Entry.padding? = []) {vs : List (FieldPart × Nat)}
    (hgaps : es.filterMap Entry.gap? = vs.flatMap fillersOf) : Numbered p' (us ++ vs) where
  paddings := by
    rw [h.entries, h.pads, List.filterMap_append, (hp.padTo offset).paddings, hpads,
      List.append_nil]
  gaps := by
    rw [h.entries, List.filterMap_append, (hp.padTo offset).gaps, hgaps, List.flatMap_append]

/-- Bases and plain fields have no fillers. -/
theorem Placed.numbered_plain {offset stop : Int} {es : List Entry}
    (h : Placed isUnion p offset es stop p') (hp : Numbered p us)
    (hpads : es.filterMap Entry.padding? = []) (hgaps : es.filterMap Entry.gap? = []) :
    Numbered p' us := by
  have hnone : es.filterMap Entry.gap? = ([] : List (FieldPart × Nat)).flatMap fillersOf := hgaps
  simpa using h.numbered hp hpads hnone

section

variable {m : Member} {rest rest' : List Member} (h : Behind us p (m :: rest))
include h

/-- What is left out leaves the units behind the cursor. -/
theorem Behind.kept (hsub : rest'.Sublist rest) (hcursor : p'.cursor = p.cursor) :
    Behind us p' rest' where
  rising := h.rising
  sorted := (List.pairwise_cons.mp h.sorted).2.sublist hsub
  behind := by
    intro u hu x hx
    rw [hcursor]
    exact h.behind u hu x (List.mem_cons_of_mem _ (hsub.subset hx))

/-- What is placed stands behind all units. -/
theorem Behind.lt (hle : p.cursor ≤ m.field.offset) : ∀ u ∈ us, u.1.offset < m.field.offset := by
  intro u hu
  have := h.behind u hu m List.mem_cons_self
  omega

/-- A plain field ends no unit. -/
theorem Behind.plain (hle : p.cursor ≤ m.field.offset) : Behind us p' rest where
  rising := h.rising
  sorted := (List.pairwise_cons.mp h.sorted).2
  behind := by
    intro u hu x hx
    have hlt := h.lt hle u hu
    have hsorted := (List.pairwise_cons.mp h.sorted).1 x hx
    omega

/-- A unit starts behind those before it. -/
theorem Behind.unit (hle : p.cursor ≤ m.field.offset) (hsub : rest'.Sublist rest)
    (hcursor : m.field.offset < p'.cursor) (n : Nat) :
    Behind (us ++ [(m.field, n)]) p' rest' where
  rising := by
    rw [List.pairwise_append]
    refine ⟨h.rising, List.pairwise_singleton _ _, fun u hu v hv => ?_⟩
    cases List.mem_singleton.mp hv
    exact h.lt hle u hu
  sorted := (List.pairwise_cons.mp h.sorted).2.sublist hsub
  behind := by
    intro u hu x hx
    have hsorted := (List.pairwise_cons.mp h.sorted).1 x (hsub.subset hx)
    rcases List.mem_append.mp hu with hu | hu
    · have hlt := h.lt hle u hu
      omega
    · cases List.mem_singleton.mp hu
      show m.field.offset < x.field.offset ∨ x.field.offset < p'.cursor
      omega

end

variable (g : Graph) (names : NameTable)

theorem numbered_placeBases (hp : Numbered p us) (index : Nat) (bs : List (String × BasePart)) :
    Numbered (placeBases g names isUnion p index bs) us := by
  induction bs generalizing p index with
  | nil => exact hp
  | cons x bs ih =>
    obtain ⟨name, b⟩ := x
    rw [placeBases]
    refine ih ?_ (index + 1)
    rcases placeBase_step g names isUnion p index name b with
      ⟨hkept, -⟩ | ⟨type, size, -, -, -, hplaced⟩
    · exact hkept.numbered hp
    · exact hplaced.numbered_plain hp rfl rfl

/-- The units of a whole run; in a structure each starts behind those before it. -/
theorem exists_numbered_placeFields {ms : List Member} (hp : Numbered p us)
    (hbehind : isUnion = false → Behind us p ms) :
    ∃ vs, Numbered (placeFields g names isUnion p ms) vs ∧
      (isUnion = false → vs.Pairwise fun u v => u.1.offset < v.1.offset) := by
  fun_induction placeFields g names isUnion p ms generalizing us with
  | case1 p => exact ⟨us, hp, fun hstruct => (hbehind hstruct).rising⟩
  | case2 p m rest _ ih =>
    have hsub : (rest.dropWhile (sharesUnit g m)).Sublist rest := List.dropWhile_sublist _
    rcases placeUnit_step g isUnion p m (m :: rest.takeWhile (sharesUnit g m)) with
      ⟨hkept, -⟩ | ⟨storage, unit, n, hstorage, -, hle, hunit, hplaced⟩
    · exact ih (hkept.numbered hp) fun hstruct => (hbehind hstruct).kept hsub hkept.cursor
    · have hgaps : unit.filterMap Entry.gap? = [(m.field, n)].flatMap fillersOf := by
        simp [hunit.gaps, fillersOf]
      refine ih (hplaced.numbered hp hunit.paddings hgaps) fun hstruct => ?_
      have hpos := storageOf?_pos hstorage
      refine (hbehind hstruct).unit (hle hstruct) hsub ?_ n
      rw [hplaced.cursor]
      omega
  | case3 p m rest _ ih =>
    rcases placeField_step g names isUnion p m with
      ⟨hkept, -⟩ | ⟨type, -, -, -, hle, hplaced⟩
    · exact ih (hkept.numbered hp) fun hstruct =>
        (hbehind hstruct).kept (List.Sublist.refl _) hkept.cursor
    · exact ih (hplaced.numbered_plain hp rfl rfl) fun hstruct =>
        (hbehind hstruct).plain (hle hstruct)

/-- Fields are taken by offset. -/
theorem sorted_byOffset (ms : List Member) :
    (byOffset ms).Pairwise fun m m' => m.field.offset ≤ m'.field.offset := by
  have hsorted : (byOffset ms).Pairwise fun m m' => decide (m.field.offset ≤ m'.field.offset) :=
    List.pairwise_mergeSort (fun x y z => by simpa using Int.le_trans)
      (fun x y => by simpa using Int.le_total _ _) ms
  simpa using hsorted

/-- The numbering of a whole layout. -/
theorem exists_numbered_layoutAs (members : List String) (a : Aggregate) :
    ∃ (n : Nat) (us : List (FieldPart × Nat)),
      (layoutAs g names members a).entries.filterMap Entry.padding? =
        (List.range n).map Placement.padName ∧
      (layoutAs g names members a).entries.filterMap Entry.gap? = us.flatMap fillersOf ∧
      (a.isUnion = false → us.Pairwise fun u v => u.1.offset < v.1.offset) := by
  have hempty : Numbered {} [] := ⟨rfl, rfl⟩
  have hbases : Numbered (placeBases g names a.isUnion {} 0
      ((baseNames names [] a.bases).zip a.bases)) [] := numbered_placeBases g names hempty 0 _
  obtain ⟨us, hfields, hrising⟩ := exists_numbered_placeFields g names hbases fun _ =>
    ⟨List.Pairwise.nil, sorted_byOffset (membersOf members a), nofun⟩
  unfold layoutAs
  dsimp only
  generalize placeFields g names a.isUnion _ _ = p at hfields
  rcases finish_step a.isUnion p a.size with hsame | ⟨n, hpadded⟩ | ⟨-, hnone, -, n, -, -, hadded⟩
  · rw [hsame]
    exact ⟨p.pads, us, hfields.paddings, hfields.gaps, hrising⟩
  · rw [hpadded]
    exact ⟨_, us, (hfields.padTo n).paddings, (hfields.padTo n).gaps, hrising⟩
  · rw [hadded]
    refine ⟨1, us, ?_, ?_, hrising⟩
    · simp [Placement.add, hnone, Entry.padding?]
    · simp [Placement.add, ← hfields.gaps, Entry.gap?]

end

/-! ## 4. Different origins

Origins are different if parts, paddings and fillers are, each among themselves. Only the fillers
of two units can share one. -/

/-- The place of a unit, for the first of its fillers. -/
def Entry.gapPlace? : Entry → Option String
  | filler first 0 .. => some first.place
  | filler _ (_ + 1) .. | padding .. | base .. | field .. | bits .. => none

/-- The places of the units that have fillers, as they read in names. -/
def gapPlaces (es : List Entry) : List String := es.filterMap Entry.gapPlace?

section

theorem nodup_origins_iff (es : List Entry) : (es.map Entry.origin).Nodup ↔
    (es.filterMap Entry.part?).Nodup ∧ (es.filterMap Entry.padding?).Nodup ∧
      ((es.filterMap Entry.gap?).map fun u => (u.1.place, u.2)).Nodup := by
  simp only [List.Nodup, List.pairwise_map, List.pairwise_filterMap, ← List.pairwise_and_iff]
  refine List.Pairwise.iff fun e e' => ?_
  cases e <;> cases e' <;>
    simp [Entry.origin, Entry.part?, Entry.padding?, Entry.gap?]

/-- The place of a unit, if it has a filler. -/
def placesOf (u : FieldPart × Nat) : List String := if u.2 = 0 then [] else [u.1.place]

theorem disjoint_placesOf_iff {u v : FieldPart × Nat} :
    List.Disjoint (placesOf u) (placesOf v) ↔
      (u.2 ≠ 0 → v.2 ≠ 0 → u.1.place ≠ v.1.place) := by
  unfold placesOf
  split <;> split <;> simp [*, eq_comm]

theorem nodup_placesOf (u : FieldPart × Nat) : (placesOf u).Nodup := by
  unfold placesOf
  split <;> simp

/-- Fillers of two units have different names under the same condition. -/
theorem disjoint_numbers_iff {u v : FieldPart × Nat} :
    List.Disjoint ((List.range u.2).map fun k => (u.1.place, k))
      ((List.range v.2).map fun k => (v.1.place, k)) ↔
      (u.2 ≠ 0 → v.2 ≠ 0 → u.1.place ≠ v.1.place) := by
  constructor
  · intro hdisjoint hu hv hplace
    have hfirst : (u.1.place, 0) ∈ (List.range u.2).map fun k => (u.1.place, k) := by
      simp [Nat.pos_of_ne_zero hu]
    have hfirst' : (u.1.place, 0) ∈ (List.range v.2).map fun k => (v.1.place, k) := by
      simp [Nat.pos_of_ne_zero hv, hplace]
    exact hdisjoint hfirst hfirst'
  · intro hplace x hx hx'
    obtain ⟨k, hk, rfl⟩ := List.mem_map.mp hx
    obtain ⟨k', hk', hsame⟩ := List.mem_map.mp hx'
    rw [List.mem_range] at hk hk'
    exact hplace (by omega) (by omega) (Prod.mk.inj hsame).1.symm

variable {es : List Entry} {us : List (FieldPart × Nat)}

/-- The places of units with fillers, read off the counts. -/
theorem gapPlaces_eq (h : es.filterMap Entry.gap? = us.flatMap fillersOf) :
    gapPlaces es = us.flatMap placesOf := by
  have hfirst : gapPlaces es = (es.filterMap Entry.gap?).filterMap fun u =>
      if u.2 = 0 then some u.1.place else none := by
    rw [gapPlaces, List.filterMap_filterMap]
    refine congrArg (List.filterMap · es) (funext fun e => ?_)
    cases e with
    | filler first k storage width => cases k <;> simp [Entry.gapPlace?, Entry.gap?]
    | padding | base | field | bits => rfl
  rw [hfirst, h, List.filterMap_flatMap]
  refine congrArg (List.flatMap · us) (funext fun u => ?_)
  obtain ⟨first, n⟩ := u
  cases n with
  | zero => rfl
  | succ n => simp [fillersOf, placesOf, List.range_succ_eq_map]

theorem nodup_gaps_iff (h : es.filterMap Entry.gap? = us.flatMap fillersOf) :
    ((es.filterMap Entry.gap?).map fun u => (u.1.place, u.2)).Nodup ↔ (gapPlaces es).Nodup := by
  have hnumbers (u : FieldPart × Nat) : (fillersOf u).map (fun u => (u.1.place, u.2)) =
      (List.range u.2).map fun k => (u.1.place, k) := by
    simp [fillersOf]
  have hunit : ∀ u ∈ us, ((List.range u.2).map fun k => (u.1.place, k)).Nodup := by
    intro u _
    exact List.nodup_range.map fun _ _ h => (Prod.mk.inj h).2
  have hplace : ∀ u ∈ us, (placesOf u).Nodup := fun u _ => nodup_placesOf u
  rw [gapPlaces_eq h, h, List.map_flatMap, List.nodup_flatMap, List.nodup_flatMap]
  simp only [hnumbers]
  refine and_congr (iff_of_true hunit hplace) (List.Pairwise.iff fun u v => ?_)
  exact disjoint_numbers_iff.trans disjoint_placesOf_iff.symm

end

/-- An offset that is shown as a truth value is zero or one. -/
def ShownAsTruth (f : FieldPart) : Prop := f.isTruth = true → f.offset = 0 ∨ f.offset = 1

/-- A place is known by how it reads. -/
theorem offset_eq_of_place_eq {f f' : FieldPart} (hf : ShownAsTruth f) (hf' : ShownAsTruth f')
    (h : f.place = f'.place) : f.offset = f'.offset := by
  have htruth (b : Bool) (n : Int) : Text.truthText b ≠ toString n := by
    intro htext
    have hchars := congrArg String.toList htext
    rw [Text.toList_toString] at hchars
    have hletter : 'e' ∈ (Text.truthText b).toList := by cases b <;> decide
    rw [hchars] at hletter
    exact absurd (Text.eq_minus_or_isDigit_of_mem_spellInt hletter) (by decide)
  unfold FieldPart.place offsetText at h
  split at h
  · rename_i hshown
    split at h
    · rename_i hshown'
      have hsame : decide (f.offset ≠ 0) = decide (f'.offset ≠ 0) := by
        generalize decide (f.offset ≠ 0) = b at h
        generalize decide (f'.offset ≠ 0) = b' at h
        cases b <;> cases b' <;> first | rfl | exact absurd h (by decide)
      have hzero := hf hshown
      have hzero' := hf' hshown'
      simp only [decide_eq_decide] at hsame
      omega
    · exact absurd h (htruth _ _)
  · split at h
    · exact absurd h.symm (htruth _ _)
    · exact Text.decimalInt_injective h

section

variable (g : Graph) (names : NameTable) (members : List String) (a : Aggregate)

/-- Each part has one entry at most. -/
theorem nodup_parts : ((layoutAs g names members a).entries.filterMap Entry.part?).Nodup := by
  rw [List.nodup_iff_count_le_one]
  intro x
  have hmentions := mentions_le_one g names members a x
  rw [Placement.mentions] at hmentions
  rw [List.count_filterMap]
  calc
    _ = (layoutAs g names members a).entries.countP fun e => e.part? = some x := by
      simp [beq_eq_decide]
    _ ≤ 1 := Nat.le_trans (Nat.le_add_right _ _) hmentions

/-- **Entries come from different places, if the units with fillers have different ones.** -/
theorem nodup_origins_iff_gapPlaces :
    ((layoutAs g names members a).entries.map Entry.origin).Nodup ↔
      (gapPlaces (layoutAs g names members a).entries).Nodup := by
  obtain ⟨n, us, hpaddings, hgaps, -⟩ := exists_numbered_layoutAs g names members a
  have hpads : ((layoutAs g names members a).entries.filterMap Entry.padding?).Nodup := by
    rw [hpaddings]
    exact List.nodup_range.map padName_injective
  rw [nodup_origins_iff, nodup_gaps_iff hgaps]
  simp [nodup_parts, hpads]

variable {a} in
/-- The units of a structure have different places. -/
theorem nodup_gapPlaces (hstruct : a.isUnion = false) (hshown : ∀ f ∈ a.fields, ShownAsTruth f) :
    (gapPlaces (layoutAs g names members a).entries).Nodup := by
  obtain ⟨n, us, -, hgaps, hrising⟩ := exists_numbered_layoutAs g names members a
  -- a unit with a filler is the unit of a field
  have hfield : ∀ u ∈ us, u.2 ≠ 0 → ShownAsTruth u.1 := by
    intro u hu hne
    have hmem : (u.1, 0) ∈ us.flatMap fillersOf := by
      refine List.mem_flatMap.mpr ⟨u, hu, List.mem_map.mpr ⟨0, ?_, rfl⟩⟩
      exact List.mem_range.mpr (Nat.pos_of_ne_zero hne)
    rw [← hgaps] at hmem
    obtain ⟨e, he, hgap⟩ := List.mem_filterMap.mp hmem
    cases made_layoutAs g names members a e he with
    | filler hm =>
      obtain ⟨hget, -⟩ := getElem?_of_mem_membersOf hm
      simp only [Entry.gap?, Option.some.injEq, Prod.mk.injEq] at hgap
      exact hgap.1 ▸ hshown _ (List.mem_of_getElem? hget)
    | padding | base | field | bits => cases hgap
  rw [gapPlaces_eq hgaps, List.nodup_flatMap]
  refine ⟨fun u _ => nodup_placesOf u, (hrising hstruct).imp_of_mem fun {u v} hu hv hlt => ?_⟩
  rw [Function.onFun, disjoint_placesOf_iff]
  intro hfilled hfilled' hplace
  have := offset_eq_of_place_eq (hfield u hu hfilled) (hfield v hv hfilled') hplace
  omega

end

/-- **Names in a list of members are different unless a field is called like padding or a
filler**, or two units of a union are filled at places that read alike. The members for bases
and fields, the padding and the fillers of storage units otherwise have names of their own; in a
structure the places of units always read differently. -/
theorem names_apart (g : Graph) (names : NameTable) (raws : List String) (a : Aggregate) :
    let members := Naming.allocateMembers raws (reserved names a)
    let p := layoutAs g names members a
    lacksName members a p = false →
    ((p.entries.map Entry.name).Nodup ↔
      (∀ e ∈ p.entries, ∀ made ∈ p.entries, ∀ i, e.part? = some (.field i) → made.part? = none →
        e.name ≠ made.name) ∧ (gapPlaces p.entries).Nodup) ∧
    (a.isUnion = false → (∀ f ∈ a.fields, ShownAsTruth f) → (gapPlaces p.entries).Nodup) := by
  intro members p hnamed
  have hclear : ∀ m ∈ members, m ∉ baseNames names [] a.bases := fun m hm hbase =>
    Naming.not_mem_reserved hm (List.mem_append_left _ hbase)
  have hgives {e : Entry} (he : e ∈ p.entries) :
      e.origin.Gives (baseNames names [] a.bases) members e.name := gives_origin hnamed he
  refine ⟨⟨fun hnodup => ⟨?_, ?_⟩, fun ⟨hfields, hplaces⟩ => ?_⟩,
    nodup_gapPlaces g names members⟩
  · intro e he made hmade i hpart hnone hname
    have hsame := List.inj_on_of_nodup_map hnodup he hmade hname
    rw [hsame, hnone] at hpart
    cases hpart
  · rw [← nodup_origins_iff_gapPlaces]
    rw [List.Nodup, List.pairwise_map] at hnodup ⊢
    refine hnodup.imp_of_mem fun {e e'} he he' hne horigin => hne ?_
    exact (hgives he).unique (horigin ▸ hgives he')
  · have horigins := (nodup_origins_iff_gapPlaces g names members a).mpr hplaces
    rw [List.Nodup, List.pairwise_map] at horigins ⊢
    refine horigins.imp_of_mem fun {e e'} he he' hne hname => ?_
    have hclash := (hgives he).eq_or_clashes (nodup_baseNames names a.bases)
      (fun b hb => mark_of_mem_baseNames hb) (Naming.nodup_allocateMembers raws _) hclear
      (hname ▸ hgives he')
    simp only [Origin.Clashes, Origin.part?_origin] at hclash
    rcases hclash with hsame | ⟨⟨i, hi⟩, hnone⟩ | ⟨⟨i, hi⟩, hnone⟩
    · exact hne hsame
    · exact hfields e he e' he' i hi hnone hname
    · exact hfields e' he' e he i hi hnone hname.symm

/-- Two units of bit-fields with gaps, and a field that is called like padding that there is
not. -/
def flags : Graph × Aggregate :=
  (⟨#[.primitive .uint32, .primitive .uint8]⟩,
    { name := "Flags", size := some 12
      fields := [⟨"low", 0, 0, some 4, some 3, false⟩, ⟨"high", 0, 4, none, some 5, false⟩,
        ⟨"_pad1", 1, 8, none, none, false⟩] })

theorem entries_flags : (layoutAs flags.1 [] ["low", "high", "_pad1"] flags.2).entries =
    [.filler ⟨"low", 0, 0, some 4, some 3, false⟩ 0 "ctypes.c_uint32" 4,
      .bits 0 "low" "ctypes.c_uint32" 3,
      .filler ⟨"low", 0, 0, some 4, some 3, false⟩ 1 "ctypes.c_uint32" 25,
      .bits 1 "high" "ctypes.c_uint32" 5,
      .filler ⟨"high", 0, 4, none, some 5, false⟩ 0 "ctypes.c_uint32" 27,
      .field 2 "_pad1" (.given "ctypes.c_uint8") 1, .padding "_pad0" 3] := by
  have htype : typeOf? flags.1 [] 1 = some (.given "ctypes.c_uint8") := by
    simp [typeOf?, flags, Graph.get, primitiveText]
  have hsizes : flags.1.byteSize 0 = some 4 ∧ flags.1.byteSize 1 = some 1 := by
    simp [Graph.byteSize, flags, Graph.get, Primitive.size]
  have hpad : Placement.padName 0 = "_pad0" := by decide
  generalize flags.1 = g at *
  simp [layoutAs, flags, membersOf, byOffset, List.mergeSort, placeBases, baseNames, placeFields,
    placeField, sharesUnit, placeUnit, unitOf, storageOf?, placeBit, Bits.fillTo, finish,
    FieldPart.isBitField, Placement.padTo, Placement.add, Placement.moveTo, htype, hsizes, hpad]

theorem names_apart_flags :
    let members := Naming.allocateMembers ["low", "high", "_pad1"] (reserved [] flags.2)
    let p := layoutAs flags.1 [] members flags.2
    lacksName members flags.2 p = false ∧ flags.2.isUnion = false ∧
      (∀ f ∈ flags.2.fields, ShownAsTruth f) ∧ (p.entries.map Entry.name).Nodup := by
  intro members p
  have hmembers : members = ["low", "high", "_pad1"] := by decide
  have hentries : p.entries = _ := (congrArg _ (hmembers ▸ rfl)).trans entries_flags
  have hnamed : lacksName members flags.2 p = false := by
    rw [lacksName, hentries, hmembers]
    rfl
  have hshown : ∀ f ∈ flags.2.fields, ShownAsTruth f := by
    unfold ShownAsTruth
    decide
  obtain ⟨hiff, hplaces⟩ := names_apart flags.1 [] ["low", "high", "_pad1"] flags.2 hnamed
  have hclear : ∀ e ∈ p.entries, ∀ made ∈ p.entries, e.part?.isSome → made.part? = none →
      e.name ≠ made.name := by
    rw [hentries]
    decide
  refine ⟨hnamed, rfl, hshown, hiff.mpr ⟨fun e he made hmade i hpart => ?_, hplaces rfl hshown⟩⟩
  exact hclear e he made hmade (hpart ▸ rfl)

/-- A field that is called like the padding behind it. -/
def padded : Graph × Aggregate :=
  (⟨#[.primitive .int32, .primitive .int64]⟩,
    { name := "S", size := some 16
      fields := [⟨"_pad0", 0, 0, none, none, false⟩, ⟨"x", 1, 8, none, none, false⟩] })

theorem entries_padded : (layout padded.1 [] padded.2).entries =
    [.field 0 "_pad0" (.given "ctypes.c_int32") 4, .padding "_pad0" 4,
      .field 1 "x" (.given "ctypes.c_int64") 8] := by
  have hmembers : fieldNames [] padded.2 = ["_pad0", "x"] := by decide
  have htypes : typeOf? padded.1 [] 0 = some (.given "ctypes.c_int32") ∧
      typeOf? padded.1 [] 1 = some (.given "ctypes.c_int64") := by
    simp [typeOf?, padded, Graph.get, primitiveText]
  have hsizes : padded.1.byteSize 0 = some 4 ∧ padded.1.byteSize 1 = some 8 := by
    simp [Graph.byteSize, padded, Graph.get, Primitive.size]
  have hpad : Placement.padName 0 = "_pad0" := by decide
  rw [layout, hmembers]
  generalize padded.1 = g at *
  simp [layoutAs, padded, membersOf, byOffset, List.mergeSort, placeBases, baseNames, placeFields,
    placeField, finish, FieldPart.isBitField, Placement.padTo, Placement.add, Placement.moveTo,
    htypes, hsizes, hpad]

/-- Nobody keeps a field from being called so: two entries of this structure have one name. -/
theorem exists_hidden :
    lacksName (fieldNames [] padded.2) padded.2 (layout padded.1 [] padded.2) = false ∧
      ¬ ((layout padded.1 [] padded.2).entries.map Entry.name).Nodup := by
  rw [lacksName, entries_padded]
  decide

end NativeTypes.Ctypes
