/-
NativeTypes.Proofs.Dwarf.Arrays — an array of debug information is the array of
its name.

By its offset an array is resolved dimension by dimension: each one is looked
up under an id of its own and is an array of the next (`Nests`). By its name it
is the element, wrapped by the suffixes of the name, the last one innermost.
Both ways wrap the element by the same lengths, so they end at one instance if
they start from one; and they do, because the element is told one shape for its
offset and for its name (`eq_of_nests`).

This needs that no array has more than 64 dimensions, and that neither the
offset nor the name of the element asks for itself. Where an array has more,
its dimensions take the ids of those of the next one, and an element that asks
for itself is declared twice, so that there are two instances
(`exists_unalike`).

Four things meet in the result, each of which is shown elsewhere and for more
than arrays. The images are exchanged for a source that answers from one
description, so requests for arrays and dimensions in any order can be talked
about. Tables of such a resolver are founded, so what a reference means is read
off them. Wrapping is deterministic, as a key has one instance. And where
chains of references end, requests return. What is new here is that the
description nests an array as its name does.

An array of many dimensions is a description of one entry and of several
dimensions that have no entry. That they are found under their ids, and not
under those of others, is where the bound of 64 is used
(`Spaced.describe_dimension`).
-/
import NativeTypes.Proofs.Dwarf.Dimensions
import NativeTypes.Proofs.Resolver.Arrayed
import NativeTypes.Proofs.Resolver.Deduplicated
import NativeTypes.Proofs.Resolver.Founded
import NativeTypes.Proofs.Resolver.Returns
import NativeTypes.Proofs.TypeName.Appended

namespace NativeTypes

/-! ## 1. Nested arrays -/

theorem TypeName.wrappingFrom_arrays (run : List Suffix) (lengths : List (Option Int)) :
    wrappingFrom run (lengths.map Suffix.array) = (lengths.map Suffix.array).reverse ++ run := by
  induction lengths generalizing run with
  | nil => rfl
  | cons l ls ih => simp [wrappingFrom, Suffix.isArray, ih]

theorem Registry.Wraps.isWritable {r : Registry Key} {suffixes : List Suffix} {h last : Handle}
    (hw : r.Wraps h suffixes last) : ∀ suffix ∈ suffixes, suffix.isWritable = true := by
  induction suffixes generalizing h with
  | nil => simp
  | cons suffix rest ih =>
    obtain ⟨hwritable, key, next, -, -, hrest⟩ := hw
    exact List.forall_mem_cons.mpr ⟨hwritable, ih hrest⟩

namespace Resolver

variable {σ : Type} {task : Task σ} {describe : Description} {valid : σ → Prop} {s : State σ}
  {ref element : Ref} {shape : Shape} {lengths : List (Option Int)}

/-- The reference is described as an array of the first length, of one of the second length, and so
on, down to the element. -/
inductive Nests (describe : Description) (element : Ref) : List (Option Int) → Ref → Prop
  | element : Nests describe element [] element
  | array {ref target : Ref} {shape : Shape} {rest : List (Option Int)} :
      Shows describe ref shape → shape.kind = .array → shape.target = some target →
      Nests describe element rest target → Nests describe element (shape.length :: rest) ref

/-- An array asks for its element. -/
theorem calls_of_array {target : Ref} (hshows : Shows describe ref shape)
    (hkind : shape.kind = .array) (htarget : shape.target = some target) :
    calls describe ref = [.to target] := by
  simp [hshows.calls_eq, Shape.calls, hkind, htarget]

/-- Who asks for one reference only asks for itself only if that one does. -/
theorem not_asksItself_of_calls {next : Ref} (hcalls : calls describe ref = [.to next])
    (hnext : ¬AsksItself describe next) : ¬AsksItself describe ref := by
  have hsingle {r : Ref} (hr : AsksFor describe ref r) : r = next := by
    obtain ⟨c, hc, rfl⟩ := hr
    rw [hcalls] at hc
    rw [List.mem_singleton.mp hc]
    rfl
  intro hself
  obtain ⟨r, hfirst, hback⟩ := Relation.TransGen.head'_iff.mp hself
  obtain rfl := hsingle hfirst
  exact hnext (Relation.TransGen.tail' hback hfirst)

/-- Who asks for nothing does not ask for itself. -/
theorem not_asksItself_of_calls_nil (hcalls : calls describe ref = []) :
    ¬AsksItself describe ref := by
  intro hself
  obtain ⟨r, ⟨c, hc, -⟩, -⟩ := Relation.TransGen.head'_iff.mp hself
  rw [hcalls] at hc
  cases hc

namespace Nests

theorem not_asksItself (h : Nests describe element lengths ref)
    (helement : ¬AsksItself describe element) : ¬AsksItself describe ref := by
  induction h with
  | element => exact helement
  | array hshows hkind htarget _ ih =>
    exact not_asksItself_of_calls (calls_of_array hshows hkind htarget) ih

theorem ends (h : Nests describe element lengths ref) (helement : Ends describe [] element) :
    Ends describe [] ref := by
  induction h with
  | element => exact helement
  | array hshows hkind htarget _ ih =>
    exact .of_calls_to (calls_of_array hshows hkind htarget) ih

/-- Nested arrays wrap their element by their lengths, the first one outermost. -/
theorem wraps (h : Nests describe element lengths ref) (hs : Founded describe valid s)
    (helement : ¬AsksItself describe element) {x : Handle} (hx : s.declared.get? ref = some x) :
    ∃ y, s.declared.get? element = some y ∧
      s.registry.Wraps y (lengths.map Suffix.array).reverse x := by
  induction h generalizing x with
  | element => exact ⟨x, hx, rfl⟩
  | @array ref target shape rest hshows hkind htarget hrest ih =>
    have hself := (Nests.array hshows hkind htarget hrest).not_asksItself helement
    have hmeans := (hs.means ref x hx hself).shown shape hshows
    simp only [ShapeMeans, hkind] at hmeans
    obtain ⟨next, hnext, hlast⟩ := hmeans target htarget
    obtain ⟨y, hy, hwraps⟩ := ih hnext
    refine ⟨y, hy, ?_⟩
    rw [List.map_cons, List.reverse_cons]
    exact Registry.wraps_append.mpr ⟨next, hwraps, hlast⟩

end Nests

/-- A name with brackets is its base, and asks for that. -/
theorem calls_withArrays (describe : Description) {text : String} {t : TypeName}
    (hparse : TypeName.parse text = .ok t) (hsuffixes : t.suffixes = []) (hne : lengths ≠ [])
    (hwritable : ∀ l ∈ lengths, (Suffix.array l).isWritable = true) :
    calls describe (.name (TypeName.withArrays text lengths)) = [.to (.name t.format)] := by
  have hbracketed := TypeName.parse_withArrays hparse hsuffixes hwritable
  have hbase : (TypeName.mk t.base (lengths.map Suffix.array)).withoutSuffixes = t := by
    cases t
    obtain rfl : _ = [] := hsuffixes
    rfl
  simp only [calls, hbracketed, TypeName.suffixes, hbase]
  rw [if_pos (by simpa using hne)]

/-- A name with brackets means what is in front of them, wrapped by the lengths. -/
theorem Founded.wraps_name (hs : Founded describe valid s) {text : String} {t : TypeName}
    (hparse : TypeName.parse text = .ok t) (hsuffixes : t.suffixes = []) (hne : lengths ≠ [])
    (hwritable : ∀ l ∈ lengths, (Suffix.array l).isWritable = true)
    (hself : ¬AsksItself describe (.name t.format)) {x : Handle}
    (hx : s.declared.get? (.name (TypeName.withArrays text lengths)) = some x) :
    ∃ y, s.declared.get? (.name t.format) = some y ∧
      s.registry.Wraps y (lengths.map Suffix.array).reverse x := by
  have hbracketed := TypeName.parse_withArrays hparse hsuffixes hwritable
  have hnot : ¬IsDescribed (.name (TypeName.withArrays text lengths)) := by
    rintro ⟨u, hu, hnil, -⟩
    cases hbracketed.symm.trans hu
    exact hne (List.map_eq_nil_iff.mp hnil)
  have hasks := not_asksItself_of_calls
    (calls_withArrays describe hparse hsuffixes hne hwritable) hself
  obtain ⟨y, hy, hwraps⟩ := (hs.means _ x hx hasks).spelled _ _ rfl hnot hbracketed
  have hbase : (TypeName.mk t.base (lengths.map Suffix.array)).withoutSuffixes = t := by
    cases t
    obtain rfl : _ = [] := hsuffixes
    rfl
  have hwrapping : (TypeName.mk t.base (lengths.map Suffix.array)).wrapping =
      (lengths.map Suffix.array).reverse := by
    rw [TypeName.wrapping, TypeName.suffixes, TypeName.wrappingFrom_arrays, List.append_nil]
  rw [hbase] at hy
  rw [hwrapping] at hwraps
  exact ⟨y, hy, hwraps⟩

/-- **An array is one instance, by offset and by name.** -/
theorem Attempted.eq_of_nests (hd : Describes task describe valid) (hs : Attempted task valid s)
    {text : String} {t : TypeName} (hparse : TypeName.parse text = .ok t)
    (hsuffixes : t.suffixes = []) (hnests : Nests describe element lengths ref)
    (hne : lengths ≠ []) (hshows : Shows describe element shape)
    (hnamed : Shows describe (.name t.format) shape)
    (hkind : shape.kind = .primitive ∨ shape.kind = .struct ∨ shape.kind = .union ∨
      shape.kind = .unsupported ∧ shape.name.isEmpty = false)
    (hself : ¬AsksItself describe element) (hselfNamed : ¬AsksItself describe (.name t.format))
    {x x' : Handle} (hx : s.declared.get? ref = some x)
    (hx' : s.declared.get? (.name (TypeName.withArrays text lengths)) = some x') :
    x = x' ∧ ∃ y, s.declared.get? element = some y ∧ s.graph.IsNested y lengths x := by
  have hfounded := hs.founded hd
  obtain ⟨y, hy, hwraps⟩ := hnests.wraps hfounded hself hx
  have hwritable : ∀ l ∈ lengths, (Suffix.array l).isWritable = true := fun l hl =>
    hwraps.isWritable _ (List.mem_reverse.mpr (List.mem_map_of_mem hl))
  obtain ⟨y', hy', hwraps'⟩ :=
    hfounded.wraps_name hparse hsuffixes hne hwritable hselfNamed hx'
  -- the element has one shape, so it is one instance
  have hmeans := (hfounded.means _ y hy hself).shown shape hshows
  have hmeans' := (hfounded.means _ y' hy' hselfNamed).shown shape hnamed
  obtain rfl := hmeans.eq hmeans' hkind
  exact ⟨hwraps.eq hwraps', y, hy, hs.arrayed.isNested hs.wellFormed hwraps⟩

end Resolver

namespace Dwarf.Image

open Resolver

variable {image : Image} {a e : Entry} {ref : Ref}

/-! ## 2. Arrays of debug information -/

/-- An offset leads to the entry there. -/
theorem Spaced.lookup_offset (h : image.Spaced) (he : e ∈ Entry.listings image.units)
    (known : Dimensions) : image.lookup known (.id e.offset) = image.lookupEntry known e := by
  have hentry : image.entry? e.offset = some e := h.placed.findIn? he
  simp only [lookup, if_neg (Int.not_lt.mpr (h.placed.nonneg e he)), hentry]

/-- The entry that a look-up leads to is described. -/
theorem describe_of_lookup (hlookup : ∀ known, image.lookup known ref = image.lookupEntry known e) :
    image.describe ref = some (match image.shapeOf e with
      | .ok (shape, _) => shape
      | .error _ => refused) := by
  rw [describe, hlookup, lookupEntry]
  cases image.shapeOf e with
  | ok result => rfl
  | error fault => rfl

theorem Spaced.describe_dimension (h : image.Spaced) (ha : a ∈ Entry.listings image.units)
    {p : Int × Shape} (hp : p ∈ image.dimensionsOf a) : image.describe (.id p.1) = some p.2 := by
  obtain ⟨i, hi, -, hid⟩ := h.exists_index ha (List.mem_map_of_mem hp)
  have hneg : p.1 < 0 := by
    have hoffset := h.placed.nonneg a ha
    rw [hid, dimensionId]
    omega
  simp only [describe, lookup, if_pos hneg, h.get?_dimensions ha hp]

/-- Every array has a dimension. -/
theorem lengths_ne_nil (e : Entry) : lengths e ≠ [] := by
  unfold lengths
  split
  · simp
  · rename_i hne
    exact fun hnil => hne hnil

/-- The inner dimensions nest, from one of them on. By induction on the lengths that are left. -/
theorem nests_inner {offset : Int} {element : Ref} (index : Nat) (ls : List (Option Int))
    (hinner : ∀ p ∈ (inner offset element index ls).1, image.describe (.id p.1) = some p.2) :
    Nests image.describe element ls (inner offset element index ls).2 := by
  induction ls generalizing index with
  | nil => exact .element
  | cons l ls ih =>
    have hrest := ih (index + 1) fun p hp => hinner p (List.mem_cons_of_mem _ hp)
    have hshows : Shows image.describe (.id (dimensionId offset index)) _ :=
      ⟨trivial, hinner _ List.mem_cons_self⟩
    exact .array hshows rfl rfl hrest

/-- An array is described as nested arrays of its element. -/
theorem Spaced.nests (h : image.Spaced) (ha : a ∈ Entry.listings image.units)
    (harray : a.tag = .arrayType) :
    Nests image.describe (image.typeRef a) (lengths a) (.id a.offset) := by
  have hdimensions : image.dimensionsOf a =
      (inner a.offset (image.typeRef a) 1 ((lengths a).drop 1)).1 := by
    rw [dimensionsOf_eq, if_pos harray]
  have hshape : image.shapeOf a =
      .ok ({ (image.arrayShape a).1 with typeId := some a.offset }, (image.arrayShape a).2) := by
    unfold shapeOf
    rw [if_neg (by rw [harray]; decide), if_pos harray]
  have hdescribed := describe_of_lookup (h.lookup_offset ha)
  rw [hshape] at hdescribed
  have hinner := nests_inner 1 ((lengths a).drop 1) fun p hp =>
    h.describe_dimension ha (hdimensions ▸ hp)
  obtain ⟨l, ls, hlengths⟩ := List.exists_cons_of_ne_nil (lengths_ne_nil a)
  have hshows : Shows image.describe (.id a.offset) _ := ⟨trivial, hdescribed⟩
  have hnests := Nests.array hshows rfl rfl hinner
  simpa only [arrayShape, hlengths, Shape.ofArray, List.headD_cons, List.drop_one, List.tail_cons]
    using hnests

/-- A base type is a scalar, or not supported under some name. -/
theorem kind_of_baseShape {shape : Shape} (h : image.baseShape e = .ok shape) :
    shape.kind = .primitive ∨ shape.kind = .unsupported ∧ shape.name.isEmpty = false := by
  unfold baseShape at h
  cases hscalar : image.baseScalar? e with
  | error fault =>
    rw [hscalar] at h
    cases h
  | ok kind =>
    rw [hscalar] at h
    cases kind with
    | some kind =>
      cases h
      exact .inl rfl
    | none =>
      cases h
      refine .inr ⟨rfl, ?_⟩
      show (if e.name.isEmpty = true then "base type" else e.name).isEmpty = false
      split
      · decide
      · rename_i hname
        simpa using hname

/-- What a base type or a complete aggregate is described as has one instance. -/
theorem exists_shape (image : Image)
    (hcomplete : e.tag = .baseType ∨ e.tag.isAggregate = true ∧ e.isDeclaration = false) :
    ∃ shape : Shape, (∀ ref, (∀ known, image.lookup known ref = image.lookupEntry known e) →
      image.describe ref = some shape) ∧
      (shape.kind = .primitive ∨ shape.kind = .struct ∨ shape.kind = .union ∨
        shape.kind = .unsupported ∧ shape.name.isEmpty = false) := by
  refine ⟨_, fun ref hlookup => describe_of_lookup hlookup, ?_⟩
  cases hshape : image.shapeOf e with
  | error fault =>
    have hname : refused.name.isEmpty = false := by decide
    exact .inr (.inr (.inr ⟨rfl, hname⟩))
  | ok result =>
    obtain ⟨shape, ds⟩ := result
    show shape.kind = .primitive ∨ shape.kind = .struct ∨ shape.kind = .union ∨
      shape.kind = .unsupported ∧ shape.name.isEmpty = false
    cases shapeOf_cases hshape with
    | @declared d haggregate hdefinition hdeclares =>
      rcases hcomplete with hbase | ⟨-, hdefined⟩
      · rw [hbase] at haggregate
        cases haggregate
      · have hself : image.definitionOf? e = some e := by simp [definitionOf?, hdefined]
        cases hdefinition.symm.trans hself
        rw [hdefined] at hdeclares
        cases hdeclares
    | @defined d =>
      by_cases hunion : d.tag = .unionType
      · exact .inr (.inr (.inl (by simp [aggregateShape, Shape.ofAggregate, hunion])))
      · exact .inr (.inl (by simp [aggregateShape, Shape.ofAggregate, hunion]))
    | array harray =>
      rcases hcomplete with hbase | ⟨haggregate, -⟩
      · rw [hbase] at harray
        cases harray
      · rw [harray] at haggregate
        cases haggregate
    | plain haggregate hplain =>
      have hbase : e.tag = .baseType := hcomplete.resolve_right fun h => by
        rw [h.1] at haggregate
        cases haggregate
      rw [plainShape, if_pos hbase] at hplain
      exact (kind_of_baseShape hplain).imp_right fun hnamed => .inr (.inr hnamed)

/-- An array whose element, a base type or a complete aggregate, is found by a name as well: the
name is read without suffixes, and what is read has a text that is read as itself and leads to the
element. -/
structure NamedArray (image : Image) (a e : Entry) (name : String) (t : TypeName) : Prop where
  listed : a ∈ Entry.listings image.units
  array : a.tag = .arrayType
  element : image.typeOf? a = some e
  complete : e.tag = .baseType ∨ e.tag.isAggregate = true ∧ e.isDeclaration = false
  parse : TypeName.parse name = .ok t
  bare : t.suffixes = []
  stable : IsDescribed (.name t.format)
  found : ∃ key, TypeName.nameKey? t.format = some key ∧ image.index.byName.get? key = some e

namespace NamedArray

variable {name : String} {t : TypeName} (hn : image.NamedArray a e name t) (h : image.Spaced)

include hn h

theorem nests : Nests image.describe (.id e.offset) (lengths a) (.id a.offset) := by
  have htype : image.typeRef a = .id e.offset := by rw [typeRef, hn.element]; rfl
  exact htype ▸ h.nests hn.listed hn.array

/-- The element is described alike for its offset and for its name. -/
theorem exists_shows : ∃ shape, Shows image.describe (.id e.offset) shape ∧
    Shows image.describe (.name t.format) shape ∧
    (shape.kind = .primitive ∨ shape.kind = .struct ∨ shape.kind = .union ∨
      shape.kind = .unsupported ∧ shape.name.isEmpty = false) := by
  obtain ⟨shape, hdescribed, hkind⟩ := exists_shape image hn.complete
  obtain ⟨key, hkey, hentry⟩ := hn.found
  have hlisted : e ∈ Entry.listings image.units := h.indexed key e hentry
  have hname (known : Dimensions) :
      image.lookup known (.name t.format) = image.lookupEntry known e := by
    simp only [lookup, hkey, hentry]
  exact ⟨shape, ⟨trivial, hdescribed _ (h.lookup_offset hlisted)⟩,
    ⟨hn.stable, hdescribed _ hname⟩, hkind⟩

/-- Its chain of references ends for the name if it ends for the offset. -/
theorem ends_name (hends : Resolver.Ends image.describe [] (.id e.offset)) :
    Resolver.Ends image.describe [] (.name t.format) := by
  obtain ⟨shape, hshows, hnamed, hkind⟩ := hn.exists_shows h
  have hlabel (label label' : String) : shape.calls label = shape.calls label' := by
    rcases hkind with hkind | hkind | hkind | ⟨hkind, -⟩ <;> simp only [Shape.calls, hkind]
  have hcalls : calls image.describe (.name t.format) = calls image.describe (.id e.offset) := by
    rw [hnamed.calls_eq, hshows.calls_eq, hlabel]
  cases hends with
  | intro hall => exact .intro (hcalls ▸ hall)

/-- The array is declared as one instance, by its offset and by its name. -/
theorem eq_of_declared {σ : Type} {task : Resolver.Task σ} {valid : σ → Prop} {s : State σ}
    (hd : Describes task image.describe valid) (hs : Attempted task valid s)
    (hself : ¬AsksItself image.describe (.id e.offset))
    (hselfNamed : ¬AsksItself image.describe (.name t.format)) {x x' : Handle}
    (hx : s.declared.get? (.id a.offset) = some x)
    (hx' : s.declared.get? (.name (TypeName.withArrays name (lengths a))) = some x') :
    x = x' ∧ ∃ y, s.declared.get? (.id e.offset) = some y ∧
      s.graph.IsNested y (lengths a) x := by
  obtain ⟨shape, hshows, hnamed, hkind⟩ := hn.exists_shows h
  exact hs.eq_of_nests hd hn.parse hn.bare (hn.nests h) (lengths_ne_nil a) hshows hnamed hkind
    hself hselfNamed hx hx'

end NamedArray

end Dwarf.Image

namespace Dwarf.Images

open Resolver

variable {image : Image} {module : String} {images : Images} {s s' : State Images} {ref : Ref}

/-! ## 3. Requests -/

/-- Requests for names and offsets, whether they returned or stopped. -/
def PlainRequests (module : String) : State Images → State Images → Prop :=
  Relation.ReflTransGen (RequestedOf ⟨source, module⟩ fun ref => Image.isPlain ref = true)

/-- Requests for names and offsets that returned. -/
def PlainReturns (module : String) : State Images → State Images → Prop :=
  Relation.ReflTransGen (ReturnedOf ⟨source, module⟩ fun ref => Image.isPlain ref = true)

/-- Nothing was asked yet. -/
theorem good_start (h : image.Spaced) (hc : images.Consulted image module) :
    Good (Consistent image module) (State.start images) where
  wellFormed := (settled_start module images).toWellFormed
  holds := {
    ready := hc.ready h
    answer := fun _ _ hnone => by cases hnone
    target := fun _ _ _ hnone => by cases hnone
    placed := fun _ _ hnone => by cases hnone }

/-- Requests for names and offsets are requests to informed images. -/
theorem PlainRequests.informed (h : image.Spaced) (hs : Good (Consistent image module) s)
    (hrequests : PlainRequests module s s') :
    Requests ⟨source.lookingUp (informedLookup image), module⟩ s s' ∧
      Good (Consistent image module) s' :=
  (exchanges_informed h module).requests
    (fun _ hplain a => Image.knows_of_isPlain (a.known module) hplain) hs hrequests

/-- Two references are a given pair, in one order or in the other. -/
def IsPair (r r' first second : Ref) : Prop := first = r ∧ second = r' ∨ first = r' ∧ second = r

/-- Two requests, one after the other. -/
def resolvePair (task : Resolver.Task Images) (limits : Limits) (first second : Ref) :
    Run Images (Handle × Handle) := do
  let x ← resolve task limits first
  let x' ← resolve task limits second
  return (x, x')

variable {a e : Entry} {name : String} {t : TypeName}

/-- The instance is the nested array that the entry describes. -/
def IsArrayOf (s : State Images) (a e : Entry) (x : Handle) : Prop :=
  ∃ y, s.declared.get? (.id e.offset) = some y ∧ s.graph.IsNested y (Image.lengths a) x

section

variable (h : image.Spaced) (hc : images.Consulted image module)

include h hc

/-- Two requests for the array that return give one instance. -/
theorem eq_of_resolved (hn : image.NamedArray a e name t)
    (hself : ¬AsksItself image.describe (.id e.offset))
    (hselfNamed : ¬AsksItself image.describe (.name t.format)) {first second : Ref}
    (hpair : IsPair (.id a.offset) (.name (TypeName.withArrays name (Image.lengths a))) first
      second)
    {s s₁ s₂ s₃ : State Images} {limits limits' : Limits} {x x' : Handle}
    (hbefore : PlainRequests module (State.start images) s)
    (hfirst : resolve ⟨source, module⟩ limits first s = .ok x s₁)
    (hbetween : PlainRequests module s₁ s₂)
    (hsecond : resolve ⟨source, module⟩ limits' second s₂ = .ok x' s₃) :
    x = x' ∧ IsArrayOf s₃ a e x := by
  have hoffset : Image.isPlain (.id a.offset) = true := by
    simpa [Image.isPlain] using h.placed.nonneg a hn.listed
  obtain ⟨hplain, hplain'⟩ : Image.isPlain first = true ∧ Image.isPlain second = true := by
    rcases hpair with ⟨rfl, rfl⟩ | ⟨rfl, rfl⟩
    · exact ⟨hoffset, rfl⟩
    · exact ⟨rfl, hoffset⟩
  -- what happens up to each of the four states
  have hgood := (hbefore.informed h (good_start h hc)).2
  have hstart : PlainRequests module (State.start images) s₁ :=
    hbefore.tail (.returned hplain hfirst)
  have hgood₁ := (hstart.informed h (good_start h hc)).2
  have hgood₂ := (hbetween.informed h hgood₁).2
  have hlast : PlainRequests module s₁ s₃ := hbetween.tail (.returned hplain' hsecond)
  have hattempted : Attempted ⟨source.lookingUp (informedLookup image), module⟩
      (Ready image module) s₃ :=
    ⟨images, hc.ready h, (PlainRequests.informed h (good_start h hc) (hstart.trans hlast)).1⟩
  -- the first one stays declared
  have hx := (hlast.informed h hgood₁).1.declared hgood₁.wellFormed
    (of_resolve_ok hgood.wellFormed hfirst).2
  have hx' := (of_resolve_ok hgood₂.wellFormed hsecond).2
  have hd := (exchanges_informed h module).describes
  rcases hpair with ⟨rfl, rfl⟩ | ⟨rfl, rfl⟩
  · exact hn.eq_of_declared h hd hattempted hself hselfNamed hx hx'
  · obtain ⟨rfl, hnested⟩ := hn.eq_of_declared h hd hattempted hself hselfNamed hx' hx
    exact ⟨rfl, hnested⟩

omit hc in
/-- Where the chains of references end, a request returns, or its stop is excused. -/
theorem exists_ensures_resolve
    (hparts : ∀ r ∈ image.partRefs, Resolver.Ends image.describe [] r)
    (hends : Resolver.Ends image.describe [] ref) (hplain : Image.isPlain ref = true) :
    ∃ n, ∀ images s, images.Consulted image module →
      PlainReturns module (State.start images) s →
      ∀ limits : Limits, n ≤ limits.depth → n ≤ limits.total →
        Ensures (resolve ⟨source, module⟩ limits ref) s
          (fun x s' => resolve ⟨source, module⟩ limits ref s = .ok x s')
          (Pardoned ⟨source, module⟩ image.describe (Ready image module)
            (ref :: image.partRefs)) := by
  have hx := exchanges_informed h module
  have hd := hx.describes
  obtain ⟨width, hwidth⟩ := exists_forall_of_mono
    (P := fun n r => DeclaresWithin _ image.describe (Ready image module) n [] r)
    (fun _ _ _ hle hr => hr.mono hle) image.partRefs fun r hr => (hparts r hr).within hd
  have hb : Bounded _ image.describe (Ready image module) image.partRefs width :=
    ⟨hd, fun _ _ hshape _ _ hr => h.mem_partRefs hshape hr, hwidth⟩
  obtain ⟨n, hn⟩ := hends.within hd
  refine ⟨image.partRefs.length * width + width + n + 1, ?_⟩
  intro images s hc hs limits hdepth htotal
  have hknows (r : Ref) (hr : Image.isPlain r = true) (b : Images) :
      Image.knows (b.known module) r = true := Image.knows_of_isPlain _ hr
  have hreturned := hx.returned hknows (good_start h hc) hs
  obtain ⟨hrequests, hgood⟩ := hx.requests hknows (good_start h hc) (requestedOf_of_returnedOf hs)
  obtain ⟨htruth, hplaced⟩ := (asking_placed hd).requests hd hrequests
    (settled_start module images).toWellFormed
    ⟨⟨hc.ready h, fun _ _ hnone => by cases hnone⟩, fun _ _ hnone => by cases hnone⟩
  have hreturns : Ensures (resolve _ limits ref) s _ _ :=
    returns_resolve hb hn (reached_of_returned hreturned) htruth hplaced (by omega) (by omega)
  have heq := hx.resolve_eq limits hgood (hknows ref hplain _)
  unfold Ensures at hreturns ⊢
  rw [← heq] at hreturns
  cases hr : resolve ⟨source, module⟩ limits ref s with
  | ok x s' => rfl
  | error e s' =>
    rw [hr] at hreturns
    exact hx.pardoned hreturns

end

/-- **Arrays mean the same from debug information and from a name.** The entries have offsets of
their own, and no array has more than 64 dimensions. The array's element is a base type or a
complete aggregate that is found by a name as well, and it does not ask for itself, neither by its
offset nor by its name. Then, on one resolver, whatever was requested before:

* requests for the array's offset and for the element's name with the lengths in brackets, in one
  order or in the other and with any requests in between, give one instance, which is an array of
  the first length, of arrays of the second length, and so on, of the element;
* where the lengths can be written and the chains of references of parts and of the element end,
  there are limits that suffice, and then both requests return, or their stop is excused. -/
theorem resolve_array_alike (module : String) {pointerSize : Int} {littleEndian : Bool}
    {units : List Entry}
    (himage : Image.ofUnits? pointerSize littleEndian units = some image)
    (hplaced : Entry.Placed units)
    (hfew : ∀ e ∈ Entry.listings units, e.tag = .arrayType → (Image.lengths e).length ≤ 64)
    (hn : image.NamedArray a e name t)
    (hself : ¬AsksItself image.describe (.id e.offset))
    (hselfNamed : ¬AsksItself image.describe (.name t.format)) {first second : Ref}
    (hpair : IsPair (.id a.offset) (.name (TypeName.withArrays name (Image.lengths a))) first
      second) :
    (∀ images, images.Consulted image module → ∀ s s₁ s₂ s₃ limits limits' x x',
      PlainRequests module (State.start images) s →
      resolve ⟨source, module⟩ limits first s = .ok x s₁ →
      PlainRequests module s₁ s₂ →
      resolve ⟨source, module⟩ limits' second s₂ = .ok x' s₃ →
      x = x' ∧ IsArrayOf s₃ a e x) ∧
    ((∀ l ∈ Image.lengths a, (Suffix.array l).isWritable = true) →
      (∀ r ∈ image.partRefs, Resolver.Ends image.describe [] r) →
      Resolver.Ends image.describe [] (.id e.offset) →
      ∃ n, ∀ images s, images.Consulted image module →
        PlainReturns module (State.start images) s →
        ∀ limits : Limits, n ≤ limits.depth → n ≤ limits.total →
          Ensures (resolvePair ⟨source, module⟩ limits first second) s
            (fun roots s' => roots.1 = roots.2 ∧ IsArrayOf s' a e roots.1)
            (Pardoned ⟨source, module⟩ image.describe (Ready image module)
              (first :: second :: image.partRefs))) := by
  have h := Image.spaced_of_ofUnits? himage hplaced hfew
  refine ⟨fun images hc s s₁ s₂ s₃ limits limits' x x' hbefore hfirst hbetween hsecond =>
    eq_of_resolved h hc hn hself hselfNamed hpair hbefore hfirst hbetween hsecond, ?_⟩
  intro hwritable hparts hends
  have hoffset : Image.isPlain (.id a.offset) = true := by
    simpa [Image.isPlain] using h.placed.nonneg a hn.listed
  have hendsOffset : Resolver.Ends image.describe [] (.id a.offset) := (hn.nests h).ends hends
  have hendsName : Resolver.Ends image.describe []
      (.name (TypeName.withArrays name (Image.lengths a))) :=
    .of_calls_to (calls_withArrays _ hn.parse hn.bare (Image.lengths_ne_nil a) hwritable)
      (hn.ends_name h hends)
  obtain ⟨⟨hplain, hends₁⟩, hplain', hends₂⟩ :
      (Image.isPlain first = true ∧ Resolver.Ends image.describe [] first) ∧
        Image.isPlain second = true ∧ Resolver.Ends image.describe [] second := by
    rcases hpair with ⟨rfl, rfl⟩ | ⟨rfl, rfl⟩
    · exact ⟨⟨hoffset, hendsOffset⟩, rfl, hendsName⟩
    · exact ⟨⟨rfl, hendsName⟩, hoffset, hendsOffset⟩
  obtain ⟨n, hn₁⟩ := exists_ensures_resolve h hparts hends₁ hplain
  obtain ⟨n', hn₂⟩ := exists_ensures_resolve h hparts hends₂ hplain'
  refine ⟨n + n', fun images s hc hs limits hdepth htotal => ?_⟩
  refine ensures_bind (Ensures.mono (hn₁ images s hc hs limits (by omega) (by omega))
    (fun _ _ hrun => hrun) fun _ _ he => he.mono (by simp)) fun x s₁ hfirst => ?_
  have hs₁ : PlainReturns module (State.start images) s₁ :=
    hs.tail ⟨limits, first, x, hplain, hfirst⟩
  refine ensures_bind (Ensures.mono (hn₂ images s₁ hc hs₁ limits (by omega) (by omega))
    (fun _ _ hrun => hrun) fun _ _ he => he.mono (by simp)) fun x' s₂ hsecond => ?_
  exact eq_of_resolved h hc hn hself hselfNamed hpair (requestedOf_of_returnedOf hs) hfirst .refl
    hsecond

/-- The text is read without suffixes, and written as it was. -/
def isOwnName (text : String) : Bool :=
  match TypeName.parse text with
  | .ok t => t.suffixes.isEmpty && t.format = text
  | .error _ => false

theorem exists_of_isOwnName {text : String} (h : isOwnName text = true) :
    ∃ t, TypeName.parse text = .ok t ∧ t.suffixes = [] ∧ t.format = text := by
  unfold isOwnName at h
  split at h
  · rename_i t hparse
    simp only [Bool.and_eq_true, List.isEmpty_iff, decide_eq_true_eq] at h
    exact ⟨t, hparse, h.1, h.2⟩
  · cases h

/-- An array of units whose element is found by a name that is written as it is read. -/
theorem exists_namedArray {pointerSize : Int} {littleEndian : Bool} {units : List Entry}
    (himage : Image.ofUnits? pointerSize littleEndian units = some image)
    (hplaced : Entry.Placed units) (ha : a ∈ Entry.listings units)
    (he : e ∈ Entry.listings units) (harray : a.tag = .arrayType)
    (htype : a.int? .type = some e.offset)
    (hcomplete : e.tag = .baseType ∨ e.tag.isAggregate = true ∧ e.isDeclaration = false)
    {text : String} (hown : isOwnName text = true)
    (hfound : ((TypeName.nameKey? text).bind image.index.byName.get?).map Entry.offset =
      some e.offset) :
    ∃ t, t.format = text ∧ image.NamedArray a e text t := by
  have hunits := (Image.ofUnits?_eq himage).1
  obtain ⟨t, hparse, hsuffixes, hformat⟩ := exists_of_isOwnName hown
  obtain ⟨found, hfound, hoffset⟩ := Option.map_eq_some_iff.mp hfound
  obtain ⟨key, hkey, hfound⟩ := Option.bind_eq_some_iff.mp hfound
  -- offsets are those of one entry
  have heq : found = e := by
    have hentry := hplaced.findIn? (Image.mem_listings_of_byName himage hfound)
    rw [hoffset, hplaced.findIn? he] at hentry
    exact (Option.some.inj hentry).symm
  exact ⟨t, hformat, {
    listed := hunits ▸ ha
    array := harray
    element := by
      rw [Image.typeOf?, htype, Option.bind_some, Image.entry?, hunits, hplaced.findIn? he]
    complete := hcomplete
    parse := hparse
    bare := hsuffixes
    stable := ⟨t, by rw [hformat, hparse], hsuffixes, rfl⟩
    found := ⟨key, by rw [hformat, hkey], heq ▸ hfound⟩ }⟩

/-- A dimension of some length. -/
def gridLine (offset length : Int) : Entry :=
  .mk offset .subrangeType [(.count, .integer length)] []

/-- Two rows of three. -/
def gridArray : Entry :=
  .mk 101 .arrayType [(.type, .integer 50)] [gridLine 107 2, gridLine 109 3]

/-- A structure of one number. -/
def gridCell : Entry :=
  .mk 50 .structureType [(.name, .text "S"), (.byteSize, .integer 4)]
    [.mk 60 .member [(.name, .text "a"), (.type, .integer 30), (.location, .integer 0)] []]

/-- A unit with such a grid of structures. -/
def gridUnits : List Entry :=
  [.mk 10 (.other "compile_unit") []
    [.mk 30 .baseType [(.name, .text "int"), (.byteSize, .integer 4), (.encoding, .integer 5)] [],
      gridCell, gridArray]]

/-- Their image. -/
def gridImage : Image := (Image.ofUnits? 8 true gridUnits).get (by decide +kernel)

/-- The grid is requested by its offset, and then by its name. -/
theorem resolve_array_alike_grid :
    let images : Images := { images := [("m", .ok gridImage)] }
    (∃ x s₁ s₂, resolve ⟨source, "m"⟩ ⟨8, 8⟩ (.id 101) (State.start images) = .ok x s₁ ∧
      resolve ⟨source, "m"⟩ ⟨8, 8⟩ (.name "S[2][3]") s₁ = .ok x s₂ ∧
      IsArrayOf s₂ gridArray gridCell x) ∧
    ∃ n, ∀ limits : Limits, n ≤ limits.depth → n ≤ limits.total →
      Ensures (resolvePair ⟨source, "m"⟩ limits (.id 101) (.name "S[2][3]")) (State.start images)
        (fun roots s => roots.1 = roots.2 ∧ IsArrayOf s gridArray gridCell roots.1)
        (Pardoned ⟨source, "m"⟩ gridImage.describe (Ready gridImage "m")
          [.id 101, .name "S[2][3]", .id 30]) := by
  intro images
  have himage : Image.ofUnits? 8 true gridUnits = some gridImage := (Option.some_get _).symm
  have hplaced : Entry.Placed gridUnits := ⟨by decide, by decide⟩
  have hfew : ∀ e ∈ Entry.listings gridUnits, e.tag = .arrayType →
      (Image.lengths e).length ≤ 64 := by decide
  obtain ⟨t, hformat, hn⟩ : ∃ t, t.format = "S" ∧
      gridImage.NamedArray gridArray gridCell "S" t :=
    exists_namedArray himage hplaced (.tail _ (.tail _ (.tail _ (.tail _ (.head _)))))
      (.tail _ (.tail _ (.head _))) rfl rfl (.inr ⟨rfl, rfl⟩) (by decide +kernel)
      (by decide +kernel)
  have hname : TypeName.withArrays "S" (Image.lengths gridArray) = "S[2][3]" := by decide +kernel
  have hcell : calls gridImage.describe (.id 50) = [] := by decide +kernel
  have hnamed : calls gridImage.describe (.name t.format) = [] := by
    rw [hformat]
    decide +kernel
  have hparts : gridImage.partRefs = [.id 30] := by decide +kernel
  have hnumber : calls gridImage.describe (.id 30) = [] := by decide +kernel
  have hc : images.Consulted gridImage "m" := .fresh rfl rfl
  have hpair : IsPair (.id 101) (.name "S[2][3]") (.id 101) (.name "S[2][3]") := .inl ⟨rfl, rfl⟩
  obtain ⟨hone, hboth⟩ := resolve_array_alike "m" himage hplaced hfew hn
    (not_asksItself_of_calls_nil hcell) (not_asksItself_of_calls_nil hnamed) (hname ▸ hpair)
  constructor
  · have hruns : returns (resolve ⟨source, "m"⟩ ⟨8, 8⟩ (.id 101)) (State.start images)
        (fun _ s => returns (resolve ⟨source, "m"⟩ ⟨8, 8⟩ (.name "S[2][3]")) s
          fun _ _ => true) = true := by decide +kernel
    obtain ⟨x, s₁, hfirst, hruns⟩ := exists_of_returns hruns
    obtain ⟨x', s₂, hsecond, -⟩ := exists_of_returns hruns
    obtain ⟨rfl, hgrid⟩ := hone images hc _ _ _ _ _ _ _ _ .refl hfirst .refl hsecond
    exact ⟨x, s₁, s₂, hfirst, hsecond, hgrid⟩
  · obtain ⟨n, hn⟩ := hboth (by decide +kernel)
      (by
        rw [hparts]
        exact List.forall_mem_singleton.mpr (.of_calls_nil hnumber))
      (.of_calls_nil hcell)
    rw [hparts] at hn
    exact ⟨n, fun limits => hn images _ hc .refl limits⟩

/-- A structure with a field of the array at 100, whose dimensions are many. -/
def deepCell : Entry :=
  .mk 50 .structureType [(.name, .text "S"), (.byteSize, .integer 8)]
    [.mk 60 .member [(.name, .text "a"), (.type, .integer 100), (.location, .integer 0)] []]

/-- A unit with both, and with two rows of three of the structures. -/
def deepUnits : List Entry :=
  [.mk 10 (.other "compile_unit") []
    [deepCell, .mk 100 .arrayType []
      (gridArray :: (List.range 66).map fun i => gridLine (112 + 2 * i) 1)]]

/-- Their image. -/
def deepImage : Image := (Image.ofUnits? 8 true deepUnits).get (by decide +kernel)

/-- A structure that is a template of a typedef of itself. -/
def roundCell : Entry :=
  .mk 50 .structureType [(.name, .text "S<T>"), (.byteSize, .integer 8)] []

/-- A unit with both, and with two rows of three of the structures. -/
def roundUnits : List Entry :=
  [.mk 10 (.other "compile_unit") []
    [roundCell, .mk 40 .typedef [(.name, .text "T"), (.type, .integer 50)] [], gridArray]]

/-- Their image. -/
def roundImage : Image := (Image.ofUnits? 8 true roundUnits).get (by decide +kernel)

/-- In these units the grid has a named element, and requests for its name and for its offset give
two instances. -/
structure Diverges (units : List Entry) (image : Image) (e : Entry) (name : String) : Prop where
  indexed : Image.ofUnits? 8 true units = some image
  placed : Entry.Placed units
  named : ∃ t, t.format = name ∧ image.NamedArray gridArray e name t
  apart : ∃ x s₁ x' s₂,
    resolve ⟨source, "m"⟩ Limits.usual
      (.name (TypeName.withArrays name (Image.lengths gridArray)))
      (State.start { images := [("m", .ok image)] }) = .ok x s₁ ∧
    resolve ⟨source, "m"⟩ Limits.usual (.id gridArray.offset) s₁ = .ok x' s₂ ∧ x ≠ x'

/-- The named element and the requests can be computed. -/
theorem diverges_of_returns {units : List Entry}
    (himage : Image.ofUnits? 8 true units = some image) (hplaced : Entry.Placed units)
    (ha : gridArray ∈ Entry.listings units) (he : e ∈ Entry.listings units)
    (hoffset : e.offset = 50) (hcomplete : e.tag.isAggregate = true ∧ e.isDeclaration = false)
    (hown : isOwnName name = true)
    (hfound : ((TypeName.nameKey? name).bind image.index.byName.get?).map Entry.offset = some 50)
    (hruns : returns (resolve ⟨source, "m"⟩ Limits.usual
        (.name (TypeName.withArrays name (Image.lengths gridArray))))
      (State.start { images := [("m", .ok image)] })
      (fun x s₁ => returns (resolve ⟨source, "m"⟩ Limits.usual (.id gridArray.offset)) s₁
        fun x' _ => decide (x ≠ x')) = true) :
    Diverges units image e name := by
  have htype : gridArray.int? .type = some e.offset := hoffset ▸ rfl
  obtain ⟨x, s₁, hfirst, hruns⟩ := exists_of_returns hruns
  obtain ⟨x', s₂, hsecond, hne⟩ := exists_of_returns hruns
  exact ⟨himage, hplaced, exists_namedArray himage hplaced ha he rfl htype (.inr hcomplete) hown
    (hoffset ▸ hfound), x, s₁, x', s₂, hfirst, hsecond, of_decide_eq_true hne⟩

/-- **An array can be two instances, by offset and by name**: if another array has 67 dimensions,
one of which takes the id of its inner one, and if its element is an argument of itself. -/
theorem exists_unalike :
    Diverges deepUnits deepImage deepCell "S" ∧
    Diverges roundUnits roundImage roundCell "S<T>" := by
  constructor
  · exact diverges_of_returns (Option.some_get _).symm ⟨by decide +kernel, by decide +kernel⟩
      (.tail _ (.tail _ (.tail _ (.tail _ (.head _))))) (.tail _ (.head _)) rfl ⟨rfl, rfl⟩
      (by decide +kernel) (by decide +kernel) (by decide +kernel)
  · exact diverges_of_returns (Option.some_get _).symm ⟨by decide, by decide⟩
      (.tail _ (.tail _ (.tail _ (.head _)))) (.tail _ (.head _)) rfl ⟨rfl, rfl⟩
      (by decide +kernel) (by decide +kernel) (by decide +kernel)

end Dwarf.Images

end NativeTypes
