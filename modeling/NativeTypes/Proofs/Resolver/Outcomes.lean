/-
NativeTypes.Proofs.Resolver.Outcomes — requests for the same roots of a plain
module end alike.

A key says of a declared reference which type it spells and whether that is
embedded: only arrays may stand around it (`Plain.key_of_arrays`). So what a
part embeds or mentions is a matter of the module (`partTable`), and what a
request leaves behind is an outcome over it (`cutting_of_resolved`). Two
outcomes agree, so the same types are known, each took the same parts, and each
is invalid in both resolvers or in neither.

That orders do not matter cannot be shown by exchanging two roots that stand
next to each other. The intermediate states differ in more than numbering:
where a cycle is entered decides which of its aggregates is met first, and how
many parts the others took by then. So the argument is about final states
alone. Each of them is an `Outcome` over one table of parts, which says for
every struct how many parts it took and who finished before whom, and the
conditions on an outcome (`Cutting`) leave one choice of the parts that were
taken. The module on cutting shows that for any table; here the final state of
a resolver is turned into an outcome.

Handles and the order of ends are different in two resolvers. They stay inside
the outcome, as its ages and ranks, and no result mentions them: the results
are about keys (`isInvalidKey`, `partsOf?`).
-/
import NativeTypes.Proofs.Resolver.Cutting
import NativeTypes.Proofs.Resolver.Unwound

namespace NativeTypes.Resolver

variable {σ : Type} {describe : Description} {valid : σ → Prop} {size : Int}
  {roots : List String} {s s' : State σ} {key : Key} {h x y t : Handle} {base : String}
  {suffixes : List Suffix} {a : Aggregate} {shape : Shape}

/-! ## 1. What a key leads to

In a plain module the key of an instance spells its type in full, so its constructor is read off
the key: pointers and arrays are around what their keys are around. -/

/-- A struct or union is described under this canonical name. -/
def IsStruct (describe : Description) (base : String) : Prop :=
  ∃ shape, Shows describe (.name base) shape ∧ shape.isAggregate = true

/-- Nothing but arrays. -/
def AllArrays (suffixes : List Suffix) : Prop := ∀ suffix ∈ suffixes, ∃ n, suffix = .array n

/-- The key of a struct is its name. -/
theorem keyOfBase_of_isStruct (h : IsStruct describe base) :
    keyOfBase describe base = .named base := by
  obtain ⟨shape, hshows, hkind⟩ := h
  have hnot : shape.kind ≠ .primitive := by
    intro he
    rw [Shape.isAggregate, he] at hkind
    cases hkind
  simp only [keyOfBase, hshows.eq, if_neg hnot]

/-- What is around nothing has no argument in its key. -/
theorem arguments_keyOfBase : (keyOfBase describe base).arguments = [] := by
  unfold keyOfBase
  split
  · split <;> rfl
  · rfl

namespace Plain

variable (hs : Plain describe valid size s) (hw : WellFormed s)

include hs

/-- The key of a struct leads to it. -/
theorem of_named_key (hp : PlainDescription describe) (hstruct : IsStruct describe base)
    (hk : s.registry.keyOf? h = some (.named base)) : ∃ shape a, s.placed.get? h = some shape ∧
      s.graph.get h = .aggregate a ∧ Shows describe (.name base) shape := by
  obtain ⟨shape, hshows, hkind⟩ := hstruct
  have hc := hs.content h _ hk
  generalize s.graph.get h = i at hc
  generalize s.placed.get? h = placed at hc
  generalize hkey : Key.named base = key at hc
  cases hc with
  | primitive hvoid => exact absurd hkey.symm (primitive_ne_named hp hvoid hshows hkind)
  | @aggregate other _ a hshows' =>
    obtain rfl : base = other := congrArg Key.name hkey
    exact ⟨_, a, rfl, rfl, hshows'⟩
  | undefined hnone =>
    obtain rfl : base = _ := congrArg Key.name hkey
    cases hshows.eq.symm.trans hnone
  | pointer => cases congrArg Key.arguments hkey
  | array => cases congrArg Key.arguments hkey

/-- The key of an aggregate is that of a struct. -/
theorem key_of_aggregate (hget : s.graph.get h = .aggregate a)
    (hk : s.registry.keyOf? h = some key) : ∃ base shape, key = .named base ∧
      IsStruct describe base ∧ s.placed.get? h = some shape ∧
      Shows describe (.name base) shape := by
  have hc := hs.content h _ hk
  rw [hget] at hc
  generalize hplaced : s.placed.get? h = placed at hc
  cases hc with
  | @aggregate base shape _ hshows hkind =>
    exact ⟨base, shape, rfl, ⟨shape, hshows, hkind⟩, rfl, hshows⟩

include hw

/-- The key of an array leads to an array of the instance under it. -/
theorem of_array_key {n : Option Int} (hk : s.registry.keyOf? h = some (.array key n)) :
    ∃ e m, s.graph.get h = .array e m ∧ s.registry.keyOf? e = some key := by
  have hc := hs.content h _ hk
  have hb := hw.keyBuilt h _ hk
  generalize s.graph.get h = i at hc hb ⊢
  generalize s.placed.get? h = placed at hc
  generalize hkey : Key.array key n = k at hc
  cases hc with
  | @array _ e m =>
    obtain ⟨k', hk', he⟩ := hb
    rw [(Key.array_inj he).1]
    exact ⟨e, m, rfl, hk'⟩
  | pointer => exact absurd hkey Key.array_ne_pointer
  | primitive => cases congrArg Key.arguments hkey
  | aggregate => cases congrArg Key.arguments hkey
  | undefined => cases congrArg Key.arguments hkey

/-- The key of a pointer leads to a pointer to the instance under it. -/
theorem of_pointer_key (hk : s.registry.keyOf? h = some (.pointer key)) :
    ∃ target n, s.graph.get h = .pointer target n ∧ s.registry.keyOf? target = some key := by
  have hc := hs.content h _ hk
  have hb := hw.keyBuilt h _ hk
  generalize s.graph.get h = i at hc hb ⊢
  generalize s.placed.get? h = placed at hc
  generalize hkey : Key.pointer key = k at hc
  cases hc with
  | @pointer _ target =>
    obtain ⟨k', hk', he⟩ := hb
    cases he
    exact ⟨target, _, rfl, hk'⟩
  | array => exact absurd hkey.symm Key.array_ne_pointer
  | primitive => cases congrArg Key.arguments hkey
  | aggregate => cases congrArg Key.arguments hkey
  | undefined => cases congrArg Key.arguments hkey

/-- What is under suffixes is there. -/
theorem exists_of_wrap (hk : s.registry.keyOf? h = some (key.wrap suffixes)) :
    ∃ x, s.registry.keyOf? x = some key := by
  induction suffixes using List.reverseRecOn generalizing h with
  | nil => exact ⟨h, hk⟩
  | append_singleton rest suffix ih =>
    rw [Key.wrap_append_singleton] at hk
    cases suffix with
    | array n =>
      obtain ⟨e, -, -, he⟩ := hs.of_array_key hw hk
      exact ih he
    | pointer =>
      obtain ⟨target, -, -, he⟩ := hs.of_pointer_key hw hk
      exact ih he
    | reference =>
      obtain ⟨target, -, -, he⟩ := hs.of_pointer_key hw hk
      exact ih he

/-- Under arrays alone there is the instance with the key below. -/
theorem key_of_arrays (harrays : AllArrays suffixes) (hplain : key.arguments = [])
    (hk : s.registry.keyOf? h = some (key.wrap suffixes)) :
    s.registry.keyOf? (innermost s.graph h) = some key := by
  induction suffixes using List.reverseRecOn generalizing h with
  | nil =>
    rw [innermost_of_not_array, hk]
    · rfl
    · -- the key of an array has an argument
      intro e n hget
      have hb := hw.keyBuilt h _ hk
      rw [hget] at hb
      obtain ⟨k, -, he⟩ := hb
      obtain rfl : key = .array k n := he
      cases hplain
  | append_singleton rest suffix ih =>
    obtain ⟨n, rfl⟩ := harrays suffix (List.mem_append_right _ List.mem_cons_self)
    rw [Key.wrap_append_singleton] at hk
    obtain ⟨e, m, hget, he⟩ := hs.of_array_key hw hk
    rw [innermost_of_array hget (hw.element_lt hget)]
    exact ih (fun x hx => harrays x (List.mem_append_left _ hx)) he

/-- An aggregate under suffixes is under arrays alone. -/
theorem arrays_of_aggregate (hk : s.registry.keyOf? h = some (key.wrap suffixes))
    (hget : s.graph.get (innermost s.graph h) = .aggregate a) : AllArrays suffixes := by
  have hpointer {key : Key} {h : Handle} (hk : s.registry.keyOf? h = some (.pointer key))
      (hget : s.graph.get (innermost s.graph h) = .aggregate a) : False := by
    obtain ⟨target, n, hpointer, -⟩ := hs.of_pointer_key hw hk
    rw [innermost_of_not_array (by simp [hpointer]), hpointer] at hget
    cases hget
  induction suffixes using List.reverseRecOn generalizing h with
  | nil => nofun
  | append_singleton rest suffix ih =>
    rw [Key.wrap_append_singleton] at hk
    cases suffix with
    | array n =>
      obtain ⟨e, m, harray, he⟩ := hs.of_array_key hw hk
      rw [innermost_of_array harray (hw.element_lt harray)] at hget
      intro x hx
      rcases List.mem_append.mp hx with hx | hx
      · exact ih he hget x hx
      · exact ⟨n, List.mem_singleton.mp hx⟩
    | pointer => exact (hpointer hk hget).elim
    | reference => exact (hpointer hk hget).elim

end Plain

/-! ## 2. Outcomes

The names of structs are the vertices: they are the same for both resolvers. `KnownAs` is the way
back from a name to the handle, with everything that is recorded about it. -/

/-- A part of the struct is spelled with the other one, under these suffixes. -/
def Spells (describe : Description) (v : String) (i : Nat) (w : String) (suffixes : List Suffix) :
    Prop :=
  ∃ shape p text, describe (.name v) = some shape ∧ shape.parts[i]? = some p ∧
    p.ref = .name text ∧ Unwraps text w suffixes

/-- The parts of the structs of a module. -/
def partTable (describe : Description) (roots : List String) : PartTable String where
  embeds v i w :=
    IsStruct describe w ∧ ∃ suffixes, AllArrays suffixes ∧ Spells describe v i w suffixes
  mentions v i w := IsStruct describe w ∧ ∃ suffixes, Spells describe v i w suffixes
  size v := ((describe (.name v)).map fun shape => shape.parts.length).getD 0
  asked v := IsStruct describe v ∧ ∃ text ∈ roots, ∃ suffixes, Unwraps text v suffixes

/-- The instance of a struct. -/
def handleOf (s : State σ) (v : String) : Handle := (s.registry.get? (.named v)).getD 0

/-- The name in the key of an instance. -/
def nameOfKey (s : State σ) (h : Handle) : String := ((s.registry.keyOf? h).map Key.name).getD ""

/-- What a resolver knows of the structs, given when it was done with each instance. -/
def outcome (s : State σ) (rank : Handle → Nat) : Outcome String where
  known v := ∃ h a, s.registry.keyOf? h = some (.named v) ∧ s.graph.get h = .aggregate a
  taken v :=
    match s.graph.get (handleOf s v) with
    | .aggregate a => a.taken
    | _ => 0
  rank v := rank (handleOf s v)
  age v := handleOf s v

/-- The struct is known, as this aggregate with this shape. -/
structure KnownAs (describe : Description) (s : State σ) (v : String) (h : Handle) (a : Aggregate)
    (shape : Shape) : Prop where
  key : s.registry.keyOf? h = some (.named v)
  get : s.graph.get h = .aggregate a
  placed : s.placed.get? h = some shape
  shows : Shows describe (.name v) shape
  isStruct : IsStruct describe v

section

variable {rank : Handle → Nat} {v w : String}

/-- The handle of a name is the one that has the name as its key. -/
theorem handleOf_eq (hw : WellFormed s) (hk : s.registry.keyOf? h = some (.named v)) :
    handleOf s v = h := by
  have hget : s.registry.get? (.named v) = some h :=
    (hw.coherent.get?_iff _ h).mpr (Registry.mem_keysOf_of_keyOf? hk)
  rw [handleOf, hget]
  rfl

/-- And the name of a handle is the one in its key. -/
theorem nameOfKey_eq (hk : s.registry.keyOf? h = some (.named v)) : nameOfKey s h = v := by
  rw [nameOfKey, hk]
  rfl

/-- An aggregate is known under its key. -/
theorem exists_knownAs (hs : Plain describe valid size s) (hw : WellFormed s)
    (hget : s.graph.get h = .aggregate a) : ∃ v shape, KnownAs describe s v h a shape := by
  obtain ⟨key, hk⟩ := hw.exists_key (Graph.lt_count_of_aggregate hget)
  obtain ⟨v, shape, rfl, hstruct, hplaced, hshows⟩ := hs.key_of_aggregate hget hk
  exact ⟨v, shape, hk, hget, hplaced, hshows, hstruct⟩

/-- What an outcome knows is an aggregate with its shape. -/
theorem exists_of_known (hs : Plain describe valid size s) (hw : WellFormed s)
    (h : (outcome s rank).known v) : ∃ h a shape, KnownAs describe s v h a shape := by
  obtain ⟨h, a, hk, hget⟩ := h
  obtain ⟨v', shape, hknown⟩ := exists_knownAs hs hw hget
  cases hk.symm.trans hknown.key
  exact ⟨h, a, shape, hknown⟩

namespace KnownAs

variable (hk : KnownAs describe s v h a shape)

include hk

theorem known : (outcome s rank).known v := ⟨h, a, hk.key, hk.get⟩

theorem size_eq : (partTable describe roots).size v = shape.parts.length := by
  simp only [partTable, hk.shows.eq, Option.map_some, Option.getD_some]

theorem taken_eq (hw : WellFormed s) : (outcome s rank).taken v = a.taken := by
  simp only [outcome, handleOf_eq hw hk.key, hk.get]

theorem rank_eq (hw : WellFormed s) : (outcome s rank).rank v = rank h := by
  simp only [outcome, handleOf_eq hw hk.key]

theorem age_eq (hw : WellFormed s) : (outcome s rank).age v = h := by
  simp only [outcome, handleOf_eq hw hk.key]

variable (roots rank) in
theorem isCut (hw : WellFormed s) :
    (outcome s rank).IsCut (partTable describe roots) v ↔ Short s h := by
  unfold Outcome.IsCut
  rw [hk.taken_eq hw, hk.size_eq]
  constructor
  · rintro ⟨-, hlt⟩
    exact ⟨shape, a, hk.placed, hk.get, hlt⟩
  · rintro ⟨other, b, hother, hb, hlt⟩
    cases hk.placed.symm.trans hother
    cases hk.get.symm.trans hb
    exact ⟨hk.known, hlt⟩

end KnownAs

/-- A part spells one type. -/
theorem Spells.eq {i : Nat} {suffixes' : List Suffix} {w' : String}
    (h : Spells describe v i w suffixes) (h' : Spells describe v i w' suffixes') : w = w' := by
  obtain ⟨shape, p, text, hshape, hp, href, hu⟩ := h
  obtain ⟨shape', p', text', hshape', hp', href', hu'⟩ := h'
  cases hshape.symm.trans hshape'
  cases hp.symm.trans hp'
  cases href.symm.trans href'
  exact (hu.eq hu').1

/-- A scalar does not take the key of a struct. -/
theorem eq_of_keyOfBase (hp : PlainDescription describe) (hbase : PlainBase describe base)
    (hstruct : IsStruct describe w) (h : keyOfBase describe base = .named w) : base = w := by
  obtain ⟨other, hshows, hkind⟩ := hstruct
  unfold keyOfBase at h
  split at h
  · rename_i shape hshape
    split at h
    · rename_i hprimitive
      exact absurd h (primitive_ne_named hp (hbase.scalar shape hshape hprimitive) hshows hkind)
    · exact congrArg Key.name h
  · exact congrArg Key.name h

end

/-! ## 3. What a request leaves

The conditions on an outcome, one by one, from what the unwinding of a request says. -/

section

variable {rank : Handle → Nat} {v w : String} {i : Nat} (hp : PlainDescription describe)
  (hr : Resolved describe valid size roots s)

include hr

/-- Who is short stands before an aggregate. -/
theorem Resolved.exists_stands (hget : s.graph.get h = .aggregate a) (hshort : Short s h) :
    ∃ y, Stands s h y := by
  obtain ⟨rank, now, hranked⟩ := hr.tracked.ranked
  obtain ⟨y, ⟨-, hy⟩, -⟩ := Relation.TransGen.head'_iff.mp
    (hranked.ring h (.inl (hr.complete h a hget)) hshort)
  exact ⟨y, hy⟩

/-- A part that was taken has the key that it spells. -/
theorem KnownAs.exists_part (hk : KnownAs describe s v h a shape) (hi : i < a.taken)
    (hspells : Spells describe v i w suffixes) : ∃ t, t ∈ (Instance.aggregate a).valueParts ∧
      s.registry.keyOf? t = some ((keyOfBase describe w).wrap suffixes) := by
  obtain ⟨other, p, text, hother, hpart, href, hu⟩ := hspells
  cases hk.shows.eq.symm.trans hother
  obtain ⟨-, htook⟩ := hr.tracked.partly h a shape hk.get hk.placed
  have hmem : p ∈ shape.parts.take a.taken :=
    List.mem_of_getElem? ((List.getElem?_take_of_lt hi).trans hpart)
  obtain ⟨t, hdeclared, ht⟩ := htook.exists_of_mem hmem
  exact ⟨t, ht, hr.tracked.plain.spelled text t w suffixes (href ▸ hdeclared) hu⟩

/-- A part that an aggregate took or stands before was declared under the key that it spells. -/
theorem KnownAs.exists_mentioned (hk : KnownAs describe s v h a shape) (hi : i ≤ a.taken)
    (hspells : Spells describe v i w suffixes) :
    ∃ t, s.registry.keyOf? t = some ((keyOfBase describe w).wrap suffixes) := by
  rcases Nat.lt_or_eq_of_le hi with hlt | rfl
  · obtain ⟨t, -, hkey⟩ := hk.exists_part hr hlt hspells
    exact ⟨t, hkey⟩
  · obtain ⟨other, p, text, hother, hpart, href, hu⟩ := hspells
    cases hk.shows.eq.symm.trans hother
    have hshort : Short s h :=
      ⟨shape, a, hk.placed, hk.get, (List.getElem?_eq_some_iff.mp hpart).1⟩
    obtain ⟨y, shape', a', p', t, -, hplaced', ha', hpart', hdeclared, -⟩ :=
      hr.exists_stands hk.get hshort
    cases hk.placed.symm.trans hplaced'
    cases hk.get.symm.trans ha'
    cases hpart.symm.trans hpart'
    exact ⟨t, hr.tracked.plain.spelled text t w suffixes (href ▸ hdeclared) hu⟩

include hp

/-- What has the key of a struct is that struct. -/
theorem known_of_key (hstruct : IsStruct describe w)
    (hk : s.registry.keyOf? h = some (.named w)) : ∃ a shape, KnownAs describe s w h a shape := by
  obtain ⟨shape, a, hplaced, hget, hshows⟩ := hr.tracked.plain.of_named_key hp hstruct hk
  exact ⟨a, shape, hk, hget, hplaced, hshows, hstruct⟩

/-- What is spelled by a reference that was declared is known. -/
theorem known_of_wrap (hstruct : IsStruct describe w)
    (hk : s.registry.keyOf? h = some ((keyOfBase describe w).wrap suffixes)) :
    (outcome s rank).known w := by
  rw [keyOfBase_of_isStruct hstruct] at hk
  obtain ⟨x, hx⟩ := hr.tracked.plain.exists_of_wrap hr.toWellFormed hk
  obtain ⟨a, shape, hknown⟩ := known_of_key hp hr hstruct hx
  exact hknown.known

variable (rank) in
/-- Who stands before a part is cut at what it embeds. -/
theorem KnownAs.cutsAt (hk : KnownAs describe s v h a shape) (hstands : Stands s h y) :
    ∃ w b shape', KnownAs describe s w y b shape' ∧
      (outcome s rank).CutsAt (partTable describe roots) v w := by
  have hcut := (hk.isCut roots rank hr.toWellFormed).mpr hstands.short
  have hplain := hr.tracked.plain
  obtain ⟨other, a', p, t, b, hother, ha', hpart, hdeclared, rfl, hget⟩ := hstands
  cases hk.placed.symm.trans hother
  cases hk.get.symm.trans ha'
  have href : p.ref ∈ shape.partRefs := by
    rw [← Shape.map_ref_parts]
    exact List.mem_map.mpr ⟨p, List.mem_of_getElem? hpart, rfl⟩
  obtain ⟨text, base, suffixes, heq, hu, hbase⟩ := hp.parts _ _ hk.shows _ href
  have hkey := hplain.spelled text t base suffixes (heq ▸ hdeclared) hu
  have harrays := hplain.arrays_of_aggregate hr.toWellFormed hkey hget
  have hinner := hplain.key_of_arrays hr.toWellFormed harrays arguments_keyOfBase hkey
  obtain ⟨w, shape', hknown⟩ := exists_knownAs hplain hr.toWellFormed hget
  obtain rfl := eq_of_keyOfBase hp hbase hknown.isStruct
    (Option.some.inj (hinner.symm.trans hknown.key))
  refine ⟨base, b, shape', hknown, hcut, hknown.isStruct, suffixes, harrays, shape, p, text,
    hk.shows.eq, ?_, heq, hu⟩
  rwa [hk.taken_eq hr.toWellFormed]

/-- **What a request leaves is an outcome of cutting.** -/
theorem cutting_of_resolved : ∃ rank, Cutting (partTable describe roots) (outcome s rank) := by
  have hplain := hr.tracked.plain
  have hw := hr.toWellFormed
  obtain ⟨rank, now, hranked⟩ := hr.tracked.ranked
  refine ⟨rank, ?_, ?_, ?_, ?_, ?_, ?_, ?_⟩
  · intro v hv
    obtain ⟨h, a, shape, hk⟩ := exists_of_known hplain hw hv
    rw [hk.taken_eq hw, hk.size_eq]
    exact (hr.tracked.partly h a shape hk.get hk.placed).1
  · rintro v i w hv hi ⟨hstruct, suffixes, harrays, hspells⟩
    obtain ⟨h, a, shape, hk⟩ := exists_of_known hplain hw hv
    rw [hk.taken_eq hw] at hi
    obtain ⟨t, ht, hkey⟩ := hk.exists_part hr hi hspells
    have hinner := hplain.key_of_arrays hw harrays arguments_keyOfBase hkey
    rw [keyOfBase_of_isStruct hstruct] at hinner
    obtain ⟨b, shape', hknown⟩ := known_of_key hp hr hstruct hinner
    have hpart : IsPart s.graph (innermost s.graph t) h :=
      ⟨a, hk.get, t, by rwa [hk.get], rfl⟩
    rw [hknown.rank_eq hw, hk.rank_eq hw]
    exact ⟨hknown.known, (hranked.part h _ b hpart hknown.get).2⟩
  · intro v hcut
    obtain ⟨h, a, shape, hk⟩ := exists_of_known hplain hw hcut.1
    have hring := hranked.ring h (.inl (hr.complete h a hk.get)) ((hk.isCut roots rank hw).mp hcut)
    have hlift : Relation.TransGen ((outcome s rank).CutsAt (partTable describe roots))
        (nameOfKey s h) (nameOfKey s h) := by
      refine hring.lift (nameOfKey s) fun x y ⟨_, hxy⟩ => ?_
      obtain ⟨-, b, -, -, -, -, hget, -⟩ := id hxy
      obtain ⟨v, shape, hx⟩ := exists_knownAs hplain hw hget
      obtain ⟨w, c, shape', hy, hcuts⟩ := hx.cutsAt rank hp hr hxy
      show (outcome s rank).CutsAt (partTable describe roots) (nameOfKey s x) (nameOfKey s y)
      rwa [nameOfKey_eq hx.key, nameOfKey_eq hy.key]
    rwa [nameOfKey_eq hk.key] at hlift
  · rintro v w ⟨hcut, -, suffixes, -, hspells⟩
    obtain ⟨h, a, shape, hk⟩ := exists_of_known hplain hw hcut.1
    obtain ⟨y, hy⟩ := hr.exists_stands hk.get ((hk.isCut roots rank hw).mp hcut)
    obtain ⟨w', b, shape', hknown, -, -, suffixes', -, hspells'⟩ := hk.cutsAt rank hp hr hy
    obtain rfl := hspells.eq hspells'
    rw [hknown.rank_eq hw, hk.rank_eq hw]
    exact ⟨hknown.known, (hranked.next h y (.inl (hr.complete h a hk.get)) hy).2⟩
  · rintro v ⟨hstruct, text, hmem, suffixes, hu⟩
    obtain ⟨h, hdeclared⟩ := hr.roots text hmem
    exact known_of_wrap hp hr hstruct (hplain.spelled text h v suffixes hdeclared hu)
  · rintro v i w hv hi ⟨hstruct, suffixes, hspells⟩
    obtain ⟨h, a, shape, hk⟩ := exists_of_known hplain hw hv
    rw [hk.taken_eq hw] at hi
    obtain ⟨t, hkey⟩ := hk.exists_mentioned hr hi hspells
    exact known_of_wrap hp hr hstruct hkey
  · intro v hv
    obtain ⟨h, a, shape, hk⟩ := exists_of_known hplain hw hv
    -- the key of a struct lies in no other one but under suffixes
    have hspelled {text : String} {whole : Key} (hspells : SpellsKey describe text whole)
        (hwithin : (Key.named v).Within whole) : ∃ suffixes, Unwraps text v suffixes := by
      obtain ⟨base, suffixes, hu, hbase, rfl⟩ := hspells
      obtain rfl := eq_of_keyOfBase hp hbase hk.isStruct
        (Key.eq_of_within arguments_keyOfBase rfl hwithin).symm
      exact ⟨suffixes, hu⟩
    obtain ⟨whole, hwithin, ⟨text, hmem, hspells⟩ | ⟨u, hu, hmentions⟩⟩ := hr.tracked.met h _ hk.key
    · obtain ⟨suffixes, hunwraps⟩ := hspelled hspells hwithin
      exact .inl ⟨hk.isStruct, text, hmem, suffixes, hunwraps⟩
    · obtain ⟨other, b, i, p, text, hother, hget, hi, hpart, href, hspells⟩ := hmentions
      obtain ⟨suffixes, hunwraps⟩ := hspelled hspells hwithin
      obtain ⟨w, shape', hknown⟩ := exists_knownAs hplain hw hget
      cases hother.symm.trans hknown.placed
      refine .inr ⟨w, i, ?_, hknown.known, ?_, hk.isStruct, suffixes, other, p, text,
        hknown.shows.eq, hpart, href, hunwraps⟩
      · rwa [hknown.age_eq hw, hk.age_eq hw]
      · rwa [hknown.taken_eq hw]

end

/-! ## 4. What is seen by key

What callers may compare between two resolvers: bases and fields with the keys of their types in
the place of handles. -/

/-- A base with the key of its type. -/
structure KeyedBase where
  type : Option Key
  offset : Int
  isTruth : Bool
  deriving DecidableEq

/-- A field with the key of its type. -/
structure KeyedField where
  name : String
  type : Option Key
  offset : Int
  bitOffset : Option Int
  bitWidth : Option Int
  isTruth : Bool
  deriving DecidableEq

/-- The bases and fields of an aggregate, with the keys of their types. -/
def keyedParts (s : State σ) (a : Aggregate) : List KeyedBase × List KeyedField :=
  (a.bases.map fun b => ⟨s.registry.keyOf? b.type, b.offset, b.isTruth⟩,
    a.fields.map fun f => ⟨f.name, s.registry.keyOf? f.type, f.offset, f.bitOffset, f.bitWidth,
      f.isTruth⟩)

/-- What is recorded of the aggregate with a key. -/
def partsOf? (s : State σ) (key : Key) : Option (List KeyedBase × List KeyedField) :=
  match s.registry.get? key with
  | none => none
  | some h =>
    match s.graph.get h with
    | .aggregate a => some (keyedParts s a)
    | _ => none

/-- The instance with a key is marked invalid. -/
def isInvalidKey (s : State σ) (key : Key) : Bool := (s.registry.get? key).any s.registry.isInvalid

/-- Instances that are alike have one key. -/
theorem Alike.keyOf? (h : Alike s s' x y) : s.registry.keyOf? x = s'.registry.keyOf? y := by
  obtain ⟨key, hk, hk'⟩ := h
  rw [hk, hk']

theorem map_eq_map_of_forall₂ {α β : Type} {f f' : α → β} {l l' : List α}
    (h : List.Forall₂ (fun x y => f x = f' y) l l') : l.map f = l'.map f' := by
  have heq : List.Forall₂ (· = ·) (l.map f) (l'.map f') :=
    List.forall₂_map_left_iff.mpr (List.forall₂_map_right_iff.mpr h)
  rwa [List.forall₂_eq_eq_eq] at heq

/-- Parts that are alike are recorded alike. -/
theorem keyedParts_eq {a' : Aggregate} (hbases : AlikeBases s s' a.bases a'.bases)
    (hfields : AlikeFields s s' a.fields a'.fields) : keyedParts s a = keyedParts s' a' := by
  refine Prod.ext (map_eq_map_of_forall₂ (hbases.imp fun b b' => ?_))
    (map_eq_map_of_forall₂ (hfields.imp fun f f' => ?_))
  · rintro ⟨htype, hoffset, htruth⟩
    rw [htype.keyOf?, hoffset, htruth]
  · rintro ⟨htype, hname, hoffset, hbit, hwidth, htruth⟩
    rw [htype.keyOf?, hname, hoffset, hbit, hwidth, htruth]

/-! ## 5. Two resolvers
 -/

/-- Which roots are asked for does not depend on their order. -/
theorem Resolved.perm {roots' : List String} (h : Resolved describe valid size roots s)
    (hperm : roots.Perm roots') : Resolved describe valid size roots' s := by
  have hasked : AskedBy describe roots = AskedBy describe roots' := by
    funext key
    exact propext (exists_congr fun text => and_congr_left fun _ => hperm.mem_iff)
  exact { h with
    tracked := hasked ▸ h.tracked
    roots := fun text hmem => h.roots text (hperm.mem_iff.mpr hmem) }

/-- Parts of the same shape that were declared with the same keys are alike. -/
theorem Took.alike {ps : List PartShape} {a b a' b' : Aggregate} (h : Took s ps a b)
    (h' : Took s' ps a' b')
    (href : ∀ p ∈ ps, ∀ t t', s.declared.get? p.ref = some t → s'.declared.get? p.ref = some t' →
      Alike s s' t t')
    (hbases : AlikeBases s s' a.bases a'.bases) (hfields : AlikeFields s s' a.fields a'.fields) :
    AlikeBases s s' b.bases b'.bases ∧ AlikeFields s s' b.fields b'.fields := by
  induction h generalizing a' with
  | nil =>
    cases h'
    exact ⟨hbases, hfields⟩
  | @cons p ps t a _ ht _ ih =>
    cases h' with
    | @cons _ _ t' _ _ ht' hrest =>
      have halike := href p List.mem_cons_self t t' ht ht'
      refine ih hrest (fun q hq => href q (List.mem_cons_of_mem _ hq)) ?_ ?_
      · cases p with
        | base b => exact List.rel_append hbases (.cons ⟨halike, rfl, rfl⟩ .nil)
        | field f => exact hbases
      · cases p with
        | base b => exact hfields
        | field f => exact List.rel_append hfields (.cons ⟨halike, rfl, rfl, rfl, rfl, rfl⟩ .nil)

section

variable {a' : Aggregate} {h' : Handle} {v : String} (hp : PlainDescription describe)
  (hr : Resolved describe valid size roots s) (hr' : Resolved describe valid size roots s')

include hp hr hr'

/-- What is known to one is known to the other, with as many parts. -/
theorem KnownAs.exists_twin (hk : KnownAs describe s v h a shape) :
    ∃ h' a', KnownAs describe s' v h' a' shape ∧ a'.taken = a.taken := by
  obtain ⟨rank, hc⟩ := cutting_of_resolved hp hr
  obtain ⟨rank', hc'⟩ := cutting_of_resolved hp hr'
  have hknown := hc.known_of_known hc' hk.known
  obtain ⟨h', a', shape', hk'⟩ := exists_of_known hr'.tracked.plain hr'.toWellFormed hknown
  cases hk.shows.eq.symm.trans hk'.shows.eq
  refine ⟨h', a', hk', ?_⟩
  rw [← hk.taken_eq hr.toWellFormed, ← hk'.taken_eq hr'.toWellFormed]
  exact (hc.taken_eq hc' hk.known hknown).symm

variable (hk : KnownAs describe s v h a shape) (hk' : KnownAs describe s' v h' a' shape)
  (htaken : a'.taken = a.taken)

include hk hk' htaken

/-- The parts that both took are of the same types. -/
theorem KnownAs.parts_alike :
    AlikeBases s s' a.bases a'.bases ∧ AlikeFields s s' a.fields a'.fields := by
  obtain ⟨-, htook⟩ := hr.tracked.partly h a shape hk.get hk.placed
  obtain ⟨-, htook'⟩ := hr'.tracked.partly h' a' shape hk'.get hk'.placed
  rw [htaken] at htook'
  refine htook.alike htook' (fun p hmem t t' ht ht' => ?_) .nil .nil
  have href : p.ref ∈ shape.partRefs := by
    rw [← Shape.map_ref_parts]
    exact List.mem_map.mpr ⟨p, List.mem_of_mem_take hmem, rfl⟩
  obtain ⟨text, base, suffixes, heq, hu, -⟩ := hp.parts _ _ hk.shows _ href
  exact ⟨_, hr.tracked.plain.spelled text t base suffixes (heq ▸ ht) hu,
    hr'.tracked.plain.spelled text t' base suffixes (heq ▸ ht') hu⟩

/-- Both were cut off, or both took all their parts; then the rule for layouts decides alike. -/
theorem KnownAs.isInvalid_eq : s.registry.isInvalid h = s'.registry.isInvalid h' := by
  obtain ⟨hbases, hfields⟩ := hk.parts_alike hp hr hr' hk' htaken
  have hshort : Short s h ↔ Short s' h' := by
    rw [← hk.isCut roots (fun _ => 0) hr.toWellFormed,
      ← hk'.isCut roots (fun _ => 0) hr'.toWellFormed, Outcome.IsCut, Outcome.IsCut,
      hk.taken_eq hr.toWellFormed, hk'.taken_eq hr'.toWellFormed, htaken]
    exact and_congr_left fun _ => iff_of_true hk.known hk'.known
  have hsize : a.size = a'.size := by
    have htwins := hr.tracked.plain.twins hp hr'.tracked.plain hr.toWellFormed hr'.toWellFormed
      ⟨_, hk.key, hk'.key⟩
    rw [hk.get, hk'.get] at htwins
    cases htwins with
    | aggregate hmade hmade' => exact (size_of_blank hmade).trans (size_of_blank hmade').symm
  have hsame := isSome_layoutFault? hp hr.tracked.plain hr'.tracked.plain hr.toWellFormed
    hr'.toWellFormed hsize hbases hfields
  have hfaulty : Faulty s h ↔ Faulty s' h' := by
    unfold Faulty
    simp only [hk.get, hk'.get, Instance.aggregate.injEq, exists_eq_left', hsame]
  rw [Bool.eq_iff_iff, hr.tracked.marks, hr'.tracked.marks, hshort, hfaulty]
  exact and_congr_left fun _ =>
    iff_of_true (hr.complete h a hk.get) (hr'.complete h' a' hk'.get)

end

section

variable (hp : PlainDescription describe) (hr : Resolved describe valid size roots s)
  (hr' : Resolved describe valid size roots s')

include hp hr hr'

/-- A key that is invalid for one resolver is invalid for the other. -/
theorem isInvalidKey_of (h : isInvalidKey s key = true) : isInvalidKey s' key = true := by
  obtain ⟨x, hget, hinvalid⟩ := (Option.any_eq_true _ _).mp h
  obtain ⟨⟨a, ha, -⟩, -⟩ := (hr.tracked.marks x).mp hinvalid
  obtain ⟨v, shape, hk⟩ := exists_knownAs hr.tracked.plain hr.toWellFormed ha
  obtain ⟨x', a', hk', htaken⟩ := hk.exists_twin hp hr hr'
  obtain rfl : key = .named v :=
    Option.some.inj ((hr.tracked.plain.keyOf?_of_get? hr.toWellFormed hget).symm.trans hk.key)
  refine (Option.any_eq_true _ _).mpr ⟨x', ?_, ?_⟩
  · exact (hr'.coherent.get?_iff _ x').mpr (Registry.mem_keysOf_of_keyOf? hk'.key)
  · rw [← hk.isInvalid_eq hp hr hr' hk' htaken, hinvalid]

/-- And what one recorded the other did. -/
theorem partsOf?_of {parts : List KeyedBase × List KeyedField} (h : partsOf? s key = some parts) :
    partsOf? s' key = some parts := by
  unfold partsOf? at h
  split at h
  · cases h
  · rename_i x hget
    split at h
    · rename_i a ha
      cases h
      obtain ⟨v, shape, hk⟩ := exists_knownAs hr.tracked.plain hr.toWellFormed ha
      obtain ⟨x', a', hk', htaken⟩ := hk.exists_twin hp hr hr'
      obtain ⟨hbases, hfields⟩ := hk.parts_alike hp hr hr' hk' htaken
      obtain rfl : key = .named v :=
        Option.some.inj ((hr.tracked.plain.keyOf?_of_get? hr.toWellFormed hget).symm.trans hk.key)
      have hget' : s'.registry.get? (.named v) = some x' :=
        (hr'.coherent.get?_iff _ x').mpr (Registry.mem_keysOf_of_keyOf? hk'.key)
      simp only [partsOf?, hget', hk'.get, keyedParts_eq hbases hfields]
    · cases h

/-- **Requests for the same roots end alike**: the same keys are invalid, and aggregates with one
key have the same bases and fields. -/
theorem Resolved.agree (key : Key) :
    isInvalidKey s key = isInvalidKey s' key ∧ partsOf? s key = partsOf? s' key := by
  refine ⟨Bool.eq_iff_iff.mpr ⟨isInvalidKey_of hp hr hr', isInvalidKey_of hp hr' hr⟩,
    Option.ext fun parts => ⟨partsOf?_of hp hr hr', partsOf?_of hp hr' hr⟩⟩

end

end NativeTypes.Resolver
