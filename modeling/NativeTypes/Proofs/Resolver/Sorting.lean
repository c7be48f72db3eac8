/-
NativeTypes.Proofs.Resolver.Sorting — what keys and references stand for,
and what a reference is resolved to depends on what was resolved before only
where two descriptions share a key.

Scalars, named types, typedefs and placeholders take their keys from one
space, and who comes first keeps a key. A `Sorting` says for each key and
each reference which sort of instance it stands for.

* `Agrees` — one answer of the source is as the sorting says: the keys that
  the described type may take stand for its sort.
* `Fits` — so are all answers so far, all warnings and the spellings of the
  references that were declared.
* `Kept` — every instance with a key, and every declared one, is of the
  sort that was said.

A sorting that fits a state is kept there (`Governs`), whatever was declared
before. This is not shown by following the resolver: a state says why it
finds what it finds (`Sourced`), and a sorting that fits it has to agree
with each of the reasons. So it is an induction on reasons
(`Justified.isOf`), with one lemma for each kind of them:
`Fits.key_of_wanted` for first keys, `Fits.sort_of_filed` for answers and
`Fits.reading_of_passes` for spellings.

If some sorting fits all that a resolver was told, a declared name is what
its description says, whatever else was declared (`Reached.answered`). Where
none fits, the first description that takes a key decides for the others as
well (`exists_sortClash`).
-/
import NativeTypes.Proofs.Resolver.Requests
import NativeTypes.Source.Catalog

namespace NativeTypes

/-! ## 1. Sorts -/

/-- The sorts of instances; each kind of scalar is a sort of its own. -/
inductive InstanceSort
  | primitive (kind : Primitive)
  | pointer
  | array
  | enumeration
  | function
  | aggregate
  | undefined
  deriving DecidableEq

/-- The sort of an instance. -/
def Instance.sort : Instance → InstanceSort
  | primitive kind => .primitive kind
  | pointer .. => .pointer
  | array .. => .array
  | enumeration _ => .enumeration
  | function _ => .function
  | aggregate _ => .aggregate
  | undefined _ => .undefined

/-- The sort of what suffixes make of an instance. -/
def InstanceSort.wrap (sort : InstanceSort) : List Suffix → InstanceSort
  | [] => sort
  | .array _ :: ss => wrap .array ss
  | .pointer :: ss | .reference :: ss => wrap .pointer ss

theorem InstanceSort.wrap_append_singleton (sort : InstanceSort) (suffixes : List Suffix)
    (suffix : Suffix) : sort.wrap (suffixes ++ [suffix]) = sort.wrap [suffix] := by
  induction suffixes generalizing sort with
  | nil => rfl
  | cons first rest ih =>
    cases first <;> rw [List.cons_append, wrap, ih] <;> cases suffix <;> rfl

namespace Resolver

variable {σ : Type} {s s' : State σ}

/-! ## 2. Sortings -/

/-- Which sort of instance each key and each reference stands for. -/
structure Sorting where
  key : Key → InstanceSort
  ref : Ref → InstanceSort

namespace Sorting

variable (T : Sorting)

/-- The token of a scalar stands for the scalar. -/
def Scalar (kind : Primitive) : Prop := T.key (.primitive kind) = .primitive kind

/-- An answer is as the sorting says, for a reference with this label that stands for `sort`. -/
def Agrees (label : String) (sort : InstanceSort) : Option Shape → Prop
  | none => T.key (.named label) = .undefined ∧ sort = .undefined
  | some shape =>
    match shape.kind with
    | .primitive =>
      T.Scalar (shape.primitive.getD .void) ∧ sort = .primitive (shape.primitive.getD .void)
    | .pointer => (shape.target = none → T.Scalar .void) ∧ sort = .pointer
    | .array =>
      match shape.target with
      | none => T.key (.named label) = .undefined ∧ sort = .undefined
      | some _ => sort = .array
    | .typedef =>
      match shape.target with
      | none => T.key (.named (if shape.name.isEmpty then label else shape.name)) = sort
      | some target => T.ref target = sort ∧ T.key (.named label) = sort ∧
          (shape.name.isEmpty = false → T.key (keyOfName shape.name) = sort)
    | .enumeration =>
      (∀ name, GoesBy shape name → T.key (keyOfName name) = .enumeration) ∧
        (shape.underlying = none → T.Scalar (defaultUnderlying shape.size)) ∧
        sort = .enumeration
    | .function => (shape.result = none → T.Scalar .void) ∧ sort = .function
    | .struct | .union =>
      (∀ name key, GoesBy shape name → AggregateKey name key → T.key key = .aggregate) ∧
        sort = .aggregate
    | .unsupported => T.key (.named (if shape.name.isEmpty then label else shape.name)) = sort

/-- What a reference stands for by its spelling: a base wrapped by suffixes; a text that is no
type name is a placeholder's name. -/
def reading : Ref → InstanceSort
  | .id n => T.ref (.id n)
  | .name text =>
    match TypeName.parse text with
    | .error _ => T.key (.named (String.ofList (Text.trim text.toList)))
    | .ok t => (T.ref (.name t.withoutSuffixes.format)).wrap t.wrapping

/-- A state knows nothing that is not as the sorting says. -/
structure Fits (s : State σ) : Prop where
  pointer : ∀ k, T.key (.pointer k) = .pointer
  array : ∀ k length, T.key (.array k length) = .array
  function : ∀ k ks variadic, T.key (.function k ks variadic) = .function
  described : ∀ ref answer, s.shapes.get? ref = some answer →
    T.Agrees (labelOf ref) (T.ref ref) answer
  reported : ∀ d ∈ s.diagnostics, d.kind = .unresolvable → T.key (.named d.subject) = .undefined
  spelled : ∀ ref h, s.declared.get? ref = some h → T.ref ref = T.reading ref

end Sorting

/-- The instance is there and is of the sort. -/
def IsOf (s : State σ) (h : Handle) (sort : InstanceSort) : Prop :=
  h < s.graph.count ∧ (s.graph.get h).sort = sort

namespace Sorting

/-- The instances of a state are of the sorts that a sorting says. -/
structure Kept (T : Sorting) (s : State σ) : Prop where
  key : ∀ key h, s.registry.get? key = some h → IsOf s h (T.key key)
  ref : ∀ ref h, s.declared.get? ref = some h → IsOf s h (T.ref ref)

/-- A sorting that fits is kept. -/
def Governs (T : Sorting) (s : State σ) : Prop := T.Fits s → T.Kept s

end Sorting

/-! ## 3. Reasons -/

namespace Sorting

variable {T : Sorting}

/-- The sort that is said of what an entry leads to. -/
def sort (T : Sorting) : Entry → InstanceSort
  | .key key => T.key key
  | .ref ref => T.ref ref

/-- What the source is asked about is not taken apart any further. -/
theorem reading_of_described (T : Sorting) {ref : Ref} (h : IsDescribed ref) :
    T.reading ref = T.ref ref := by
  cases ref with
  | id n => rfl
  | name text =>
    obtain ⟨⟨base, suffixes⟩, hparse, hplain, rfl⟩ := h
    obtain rfl : suffixes = [] := hplain
    simp only [reading, hparse]
    rfl

namespace Fits

/-- A scalar that some described type needs stands for itself. -/
theorem scalar (hf : T.Fits s) {kind : Primitive} (h : Needed s kind) : T.Scalar kind := by
  obtain ⟨ref, shape, hknows, hneeds⟩ := h
  have hagrees := hf.described ref _ hknows
  cases hneeds with
  | self hkind =>
    simp only [Agrees, hkind] at hagrees
    exact hagrees.1
  | target hkind htarget =>
    simp only [Agrees, hkind] at hagrees
    exact hagrees.1 htarget
  | underlying hkind hunderlying =>
    simp only [Agrees, hkind] at hagrees
    exact hagrees.2.1 hunderlying
  | result hkind hresult =>
    simp only [Agrees, hkind] at hagrees
    exact hagrees.1 hresult

/-- A first key stands for the sort of the instance that was wanted under it. -/
theorem key_of_wanted (hf : T.Fits s) {key : Key} {i : Instance} (hwanted : Wanted s key i)
    (hbuilt : KeyBuilt s.registry key i) : T.key key = i.sort := by
  cases hwanted with
  | primitive hneeded =>
    obtain rfl : key = .primitive _ := hbuilt
    exact hf.scalar hneeded
  | enumeration hknows hkind hname hkey =>
    have hagrees := hf.described _ _ hknows
    simp only [Agrees, hkind] at hagrees
    exact hkey ▸ hagrees.1 _ hname
  | aggregate hknows hkind hname hkey =>
    have hagrees := hf.described _ _ hknows
    rcases hkind with hkind | hkind <;> simp only [Agrees, hkind] at hagrees
    · exact hagrees.1 _ _ hname hkey
    · exact hagrees.1 _ _ hname hkey
  | undefined hd hkind hkey => exact hkey ▸ hf.reported _ hd hkind
  | pointer =>
    obtain ⟨k, -, rfl⟩ := hbuilt
    exact hf.pointer k
  | array =>
    obtain ⟨k, -, rfl⟩ := hbuilt
    exact hf.array k _
  | function =>
    obtain ⟨k, ks, -, -, rfl⟩ := hbuilt
    exact hf.function k ks _

/-- An answer is filed under what stands for its sort. -/
theorem sort_of_filed (hf : T.Fits s) {label : String} {answer : Option Shape} {e : Entry}
    {sort : InstanceSort} (hfiled : Filed label answer e) (hagrees : T.Agrees label sort answer) :
    T.sort e = sort := by
  cases hfiled with
  | unknown => exact hagrees.1.trans hagrees.2.symm
  | primitive hkind =>
    simp only [Agrees, hkind] at hagrees
    exact hagrees.1.trans hagrees.2.symm
  | pointer hkind =>
    simp only [Agrees, hkind] at hagrees
    exact (hf.pointer _).trans hagrees.2.symm
  | array hkind htarget =>
    obtain ⟨target, htarget⟩ := Option.ne_none_iff_exists'.mp htarget
    simp only [Agrees, hkind, htarget] at hagrees
    exact (hf.array _ _).trans hagrees.symm
  | elementless hkind htarget =>
    simp only [Agrees, hkind, htarget] at hagrees
    exact hagrees.1.trans hagrees.2.symm
  | target hkind htarget =>
    simp only [Agrees, hkind, htarget] at hagrees
    exact hagrees.1
  | reentered hkind htarget =>
    obtain ⟨target, htarget⟩ := Option.ne_none_iff_exists'.mp htarget
    simp only [Agrees, hkind, htarget] at hagrees
    exact hagrees.2.1
  | targetless hkind htarget =>
    simp only [Agrees, hkind, htarget] at hagrees
    exact hagrees
  | enumeration hkind hname =>
    simp only [Agrees, hkind] at hagrees
    exact (hagrees.1 _ hname).trans hagrees.2.2.symm
  | function hkind =>
    simp only [Agrees, hkind] at hagrees
    exact (hf.function _ _ _).trans hagrees.2.symm
  | aggregate hkind hname hkey =>
    rcases hkind with hkind | hkind <;> simp only [Agrees, hkind] at hagrees
    · exact (hagrees.1 _ _ hname hkey).trans hagrees.2.symm
    · exact (hagrees.1 _ _ hname hkey).trans hagrees.2.symm
  | unsupported hkind =>
    simp only [Agrees, hkind] at hagrees
    exact hagrees

/-- A reference passes to what stands for the sort of its spelling. -/
theorem reading_of_passes (hf : T.Fits s) {ref : Ref} {e : Entry} (h : PassesTo s ref e) :
    T.sort e = T.reading ref := by
  cases h with
  | refused hparse => simp only [reading, hparse, sort]
  | @wrapped _ _ _ suffix key hparse hlast =>
    simp only [reading, hparse, hlast, InstanceSort.wrap_append_singleton]
    cases suffix with
    | array length => exact hf.array key length
    | pointer => exact hf.pointer key
    | reference => exact hf.pointer key
  | @respelled _ t hparse hplain =>
    obtain ⟨base, suffixes⟩ := t
    obtain rfl : suffixes = [] := hplain
    simp only [reading, hparse]
    rfl
  | described hdescribed hanswer hfiled =>
    exact (hf.sort_of_filed hfiled (hf.described _ _ hanswer)).trans
      (T.reading_of_described hdescribed).symm

end Fits

end Sorting

variable {T : Sorting}

/-- What is found is of the sort that is said of the entry, by induction on the reason. -/
theorem Justified.isOf (hw : WellFormed s) (hf : T.Fits s) {e : Entry} {h : Handle}
    (hj : Justified s e h) : IsOf s h (T.sort e) := by
  induction hj with
  | wanted hlt hkey hwanted =>
    exact ⟨hlt, (hf.key_of_wanted hwanted (hw.keyBuilt _ _ hkey)).symm⟩
  | typedef hknows hkind htarget hname _ ih =>
    -- the typedef, its name and its target stand for one sort
    have hagrees := hf.described _ _ hknows
    simp only [Sorting.Agrees, hkind, htarget] at hagrees
    have hsame := hagrees.1.trans (hagrees.2.2 hname).symm
    exact ⟨ih.1, ih.2.trans hsame⟩
  | declared hdeclared hpasses _ ih =>
    obtain ⟨x, hx⟩ := Option.isSome_iff_exists.mp hdeclared
    exact ⟨ih.1, ih.2.trans ((hf.reading_of_passes hpasses).trans (hf.spelled _ x hx).symm)⟩

theorem Sourced.kept (hs : Sourced s) (hw : WellFormed s) (hf : T.Fits s) : T.Kept s where
  key := fun key h hh => (hs.justified (.key key) h hh).isOf hw hf
  ref := fun ref h hh => (hs.justified (.ref ref) h hh).isOf hw hf

/-- **A sorting governs every state that requests lead to**: as long as it fits what the resolver
was told, all instances are of the sorts that it says. -/
theorem Reached.governs (T : Sorting) {task : Task σ} (h : Reached task s) : T.Governs s :=
  h.sourced.kept h.settled.toWellFormed

variable {task : Task σ}

/-! ## 4. Descriptions -/

/-- An instance is what an answer says: a scalar of the kind, an aggregate, an enumeration, or a
placeholder for what the source does not know. -/
def Answers (i : Instance) : Option Shape → Prop
  | none => ∃ name, i = .undefined name
  | some shape =>
    match shape.kind with
    | .primitive => i = .primitive (shape.primitive.getD .void)
    | .struct | .union => ∃ a, i = .aggregate a
    | .enumeration => ∃ e, i = .enumeration e
    | _ => True

/-- What the sort of an instance says about it. -/
theorem eq_of_sort (i : Instance) :
    match i.sort with
    | .primitive kind => i = .primitive kind
    | .aggregate => ∃ a, i = .aggregate a
    | .enumeration => ∃ e, i = .enumeration e
    | .undefined => ∃ name, i = .undefined name
    | _ => True := by
  cases i <;> simp [Instance.sort]

theorem answers_of_agrees {label : String} {i : Instance} {answer : Option Shape}
    (h : T.Agrees label i.sort answer) : Answers i answer := by
  have hi := eq_of_sort i
  cases answer with
  | none =>
    rw [h.2] at hi
    exact hi
  | some shape =>
    cases hkind : shape.kind with
    | primitive | struct | union =>
      simp only [Sorting.Agrees, Answers, hkind] at h ⊢
      rw [h.2] at hi
      exact hi
    | enumeration =>
      simp only [Sorting.Agrees, Answers, hkind] at h ⊢
      rw [h.2.2] at hi
      exact hi
    | pointer | array | function | typedef | unsupported => simp only [Answers, hkind]

/-- A declared name is what its description says, if some sorting fits all that the resolver was
told. -/
theorem Reached.answered (hr : Reached task s) (hfits : T.Fits s) {text : String} {t : TypeName}
    (hparse : TypeName.parse text = .ok t) (hplain : t.suffixes = []) {h : Handle}
    (hdeclared : s.declared.get? (.name text) = some h) {answer : Option Shape}
    (hanswer : s.shapes.get? (.name t.format) = some answer) :
    Answers (s.graph.get h) answer := by
  obtain ⟨base, suffixes⟩ := t
  obtain rfl : suffixes = [] := hplain
  have hsort : (s.graph.get h).sort = T.ref (.name (TypeName.format (.mk base []))) := by
    rw [((hr.governs T hfits).ref _ h hdeclared).2, hfits.spelled _ h hdeclared]
    simp only [Sorting.reading, hparse]
    rfl
  have hagrees := hfits.described _ answer hanswer
  rw [← hsort] at hagrees
  exact answers_of_agrees hagrees

/-- **A name is resolved to what its description says, whatever was resolved before**, as long as
some sorting fits all that the resolver was told. The name need not be spelled as the source
knows it. -/
theorem resolve_answered (hr : Reached task s) {limits : Limits} {text : String} {h : Handle}
    (hrun : resolve task limits (.name text) s = .ok h s') (hfits : T.Fits s') {t : TypeName}
    (hparse : TypeName.parse text = .ok t) (hplain : t.suffixes = []) {answer : Option Shape}
    (hanswer : s'.shapes.get? (.name t.format) = some answer) :
    Answers (s'.graph.get h) answer :=
  (Reached.resolve hr hrun).answered hfits hparse hplain (declared_of_resolve hr hrun) hanswer

/-- A module that knows nothing but the built-in types. -/
def bareCatalog : Catalog := ({} : Catalog).addModule "m" 8

/-- Every key with arguments is structural; `uint32` is the scalar, and nothing else is known. -/
def scalarSorting : Sorting where
  key
    | .mk name [] => if name = "uint32" then .primitive .uint32 else .undefined
    | .mk name (_ :: _) =>
      if name = "*" then .pointer
      else if name = "()" ∨ name = "(...)" then .function
      else .array
  ref r := if r = .name "unsigned" ∨ r = .name "unsigned int" then .primitive .uint32
    else .undefined

theorem scalarSorting_array (k : Key) (length : Option Int) :
    scalarSorting.key (.array k length) = .array := by
  have hne : ∀ name : String, name.toList.head? ≠ some '[' →
      "[" ++ Key.lengthText length ++ "]" ≠ name := by
    rintro _ hname rfl
    simp at hname
  simp only [Key.array, scalarSorting]
  rw [if_neg (hne _ (by decide)), if_neg]
  rintro (h | h)
  · exact hne _ (by decide) h
  · exact hne _ (by decide) h

/-- An unknown name comes first, then a scalar under another of its spellings. -/
theorem resolve_answered_unsigned : ∃ s h s', Reached ⟨Catalog.source, "m"⟩ s ∧
    s.diagnostics.length = 1 ∧
    resolve ⟨Catalog.source, "m"⟩ ⟨8, 8⟩ (.name "unsigned") s = .ok h s' ∧
    scalarSorting.Fits s' ∧
    Answers (s'.graph.get h) (some (Shape.ofPrimitive "unsigned int" .uint32)) := by
  have hfirst : returns (resolve ⟨Catalog.source, "m"⟩ ⟨8, 8⟩ (.name "Gone"))
      (State.start bareCatalog) (fun _ s => s.diagnostics.length = 1 ∧
        returns (resolve ⟨Catalog.source, "m"⟩ ⟨8, 8⟩ (.name "unsigned")) s (fun _ s' =>
          s'.shapes = [(.name "Gone", none),
            (.name "unsigned int", some (Shape.ofPrimitive "unsigned int" .uint32))] ∧
          s'.diagnostics.map Diagnostic.subject = ["Gone"] ∧
          s'.declared.map Prod.fst =
            [.name "Gone", .name "unsigned int", .name "unsigned"])) = true := by
    decide +kernel
  obtain ⟨_, s, hs, hcheck⟩ := exists_of_returns hfirst
  obtain ⟨hlength, hsecond⟩ := of_decide_eq_true hcheck
  obtain ⟨h, s', hrun, hcheck'⟩ := exists_of_returns hsecond
  obtain ⟨hshapes, hsubjects, hnames⟩ := of_decide_eq_true hcheck'
  have hr : Reached ⟨Catalog.source, "m"⟩ s := .resolve (.start _) hs
  have hfits : scalarSorting.Fits s' := by
    refine ⟨fun _ => rfl, scalarSorting_array, fun _ _ variadic => by cases variadic <;> rfl,
      fun ref answer ha => ?_, fun d hd _ => ?_, fun ref x hx => ?_⟩
    · have hmem := Assoc.mem_of_get? ha
      rw [hshapes] at hmem
      rcases List.mem_cons.mp hmem with heq | hmem
      · cases heq
        exact ⟨by decide, by decide⟩
      · cases List.mem_singleton.mp hmem
        exact ⟨show _ = _ by decide, by decide⟩
    · have hmem := List.mem_map_of_mem (f := Diagnostic.subject) hd
      rw [hsubjects, List.mem_singleton] at hmem
      rw [hmem]
      rfl
    · have hmem := List.mem_map_of_mem (f := Prod.fst) (Assoc.mem_of_get? hx)
      simp only [hnames, List.mem_cons, List.not_mem_nil, or_false] at hmem
      rcases hmem with rfl | rfl | rfl
      · decide +kernel
      · decide +kernel
      · decide +kernel
  have hread : (TypeName.parse? "unsigned").any (fun t =>
      decide (t.suffixes = []) && t.format == "unsigned int") = true := by decide +kernel
  obtain ⟨t, hparse, hplain, hformat⟩ : ∃ t, TypeName.parse "unsigned" = .ok t ∧
      t.suffixes = [] ∧ t.format = "unsigned int" := by
    cases hparse : TypeName.parse "unsigned" with
    | ok t =>
      rw [TypeName.parse?, hparse] at hread
      exact ⟨t, rfl, by simpa [Except.toOption] using hread⟩
    | error e =>
      rw [TypeName.parse?, hparse] at hread
      cases hread
  have hanswer : s'.shapes.get? (.name t.format) =
      some (some (Shape.ofPrimitive "unsigned int" .uint32)) := by
    rw [hshapes, hformat]
    decide
  exact ⟨s, h, s', hr, hlength, hrun, hfits, resolve_answered hr hrun hfits hparse hplain hanswer⟩

/-- **What was resolved before may change what a reference means**: a scalar is filed under its
token, and so is an unknown type of that name. Whichever of both comes first stands for the
other as well. -/
theorem exists_sortClash :
    (∃ s h, Reached ⟨Catalog.source, "m"⟩ s ∧
      s.shapes.get? (.name "int") = some (some (Shape.ofPrimitive "int" .int32)) ∧
      s.declared.get? (.name "int") = some h ∧ s.graph.get h = .undefined "int32") ∧
    ∃ s h, Reached ⟨Catalog.source, "m"⟩ s ∧ s.shapes.get? (.name "int32") = some none ∧
      s.declared.get? (.name "int32") = some h ∧ s.graph.get h = .primitive .int32 ∧
      s.diagnostics = [] := by
  have hunknownFirst : returns
      (resolveAll ⟨Catalog.source, "m"⟩ ⟨8, 8⟩ [.name "int32", .name "int"])
      (State.start bareCatalog) (fun _ s =>
        s.shapes.get? (.name "int") = some (some (Shape.ofPrimitive "int" .int32)) ∧
        s.declared.get? (.name "int") = some 0 ∧ s.graph.get 0 = .undefined "int32") = true := by
    decide +kernel
  have hscalarFirst : returns
      (resolveAll ⟨Catalog.source, "m"⟩ ⟨8, 8⟩ [.name "int", .name "int32"])
      (State.start bareCatalog) (fun _ s =>
        s.shapes.get? (.name "int32") = some none ∧
        s.declared.get? (.name "int32") = some 0 ∧ s.graph.get 0 = .primitive .int32 ∧
        s.diagnostics = []) = true := by
    decide +kernel
  obtain ⟨_, s, hs, hcheck⟩ := exists_of_returns hunknownFirst
  obtain ⟨_, s', hs', hcheck'⟩ := exists_of_returns hscalarFirst
  exact ⟨⟨s, 0, .resolveAll (.start _) hs, of_decide_eq_true hcheck⟩,
    s', 0, .resolveAll (.start _) hs', of_decide_eq_true hcheck'⟩

end Resolver

end NativeTypes
