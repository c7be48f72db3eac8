/-
NativeTypes.Proofs.Resolver.Declare — declaring only adds.

Every function of the declare phase steps in the sense of `Steps`: from a
well-formed state to a well-formed one that grew out of it. There is one lemma
`steps_f` for each function `f`, and it is the only one that opens `f` for what
happens to the tables. What it says of the result is what the callers of `f`
need to go on.

* A handle is in the graph (`InGraph`), so it has a key.
* A type without a name of its own is found under the key that is made of the
  keys of its parts.
* What a shape is declared as is found where its answer is filed (`Files`), and
  what a reference is declared as is found by an entry that it passes to
  (`Passes`).

The last two are what `Sourced` needs. `Grows` carries it along: whatever the
new state finds goes back to the source, provided that the old state's finds
do. For a new instance the lemma is given why it is wanted under its key
(`Wanted`): `steps_register` and `steps_placeNew` ask for it, and each function
over shapes answers with the constructor for its kind. For an alias it is given
why the instance may be found there (`Justified`). That keys can be written is
part of it, because a key is made of keys that are in the registry already; so
it has to be assumed of the old state and cannot be shown for one step alone.

New instances come from two places, `register` and `place`; `Linked.push` and
`Grows.push` say once what adding an instance under a free key does. An alias
binds one more key to an instance (`WellFormed.bind`, `Grows.bind`), and a
reference is remembered at the end of its declaration (`WellFormed.remember`);
nothing else changes what can be found.

The functions over shapes are given how a reference is declared, so each has
one lemma under the assumption `Declares`, and `declares_declare` closes the
circle by induction on the number of references that may be followed. The
recursion itself is not on shapes: a typedef may lead back to itself, and it is
only the bound that gets smaller.
-/
import NativeTypes.Proofs.Resolver.WellFormed

namespace NativeTypes.Resolver

variable {σ : Type} {s s' : State σ}

/-! ## 1. One more instance, one more entry

The new instance gets the next handle. All that the state had stays under the handles it had, so
every part of `WellFormed` is to be shown for the new handle only; for the others it is what it
was. Another key for an instance that is there changes even less. -/

/-- A free key for a new instance: the registry refuses all others. -/
theorem Linked.register_eq (hs : Linked s) {key : Key} {r : Registry Key}
    (hr : s.registry.register key s.graph.count = .ok r) :
    s.registry.get? key = none ∧ r = s.registry.bind key s.graph.count := by
  unfold Registry.register at hr
  split at hr
  · rename_i hfree
    cases hr
    exact ⟨hfree, rfl⟩
  · rename_i holder hholder
    split at hr
    · rename_i he
      -- the holder of a key is in the graph, the new instance is not
      exact absurd (hs.lt_count_of_get? hholder) (he ▸ Nat.lt_irrefl _)
    · cases hr

/-- A new instance has its first key first. -/
theorem Linked.keyOf?_bind_count (hs : Linked s) (key : Key) :
    (s.registry.bind key s.graph.count).keyOf? s.graph.count = some key := by
  rw [Registry.keyOf?, Registry.keysOf_bind, if_pos rfl, hs.keysOf_count]
  rfl

/-- Adding an instance under a free key, if its parts are in the graph and the key is built of
theirs, keeps the tables linked. -/
theorem Linked.push (hs : Linked s) {key : Key} {i : Instance}
    (hfree : s.registry.get? key = none) (hparts : ∀ p ∈ i.parts, p.1 < s.graph.count)
    (hkey : KeyBuilt s.registry key i) (hgraph : s'.graph = s.graph.push i)
    (hregistry : s'.registry = s.registry.bind key s.graph.count)
    (hdeclared : s'.declared = s.declared) : Linked s' := by
  have hkeys : ∀ h k, s.registry.keyOf? h = some k → s'.registry.keyOf? h = some k := by
    intro h k hk
    rw [hregistry]
    exact Registry.keyOf?_of_prefix (Registry.keysOf_prefix_bind _ _ _ _) hk
  have hnew : s'.registry.keyOf? s.graph.count = some key := by
    rw [hregistry, hs.keyOf?_bind_count]
  have hother : ∀ h, h ≠ s.graph.count → s'.registry.keyOf? h = s.registry.keyOf? h := by
    intro h hh
    rw [hregistry, Registry.keyOf?, Registry.keysOf_bind, if_neg (Ne.symm hh), Registry.keyOf?]
  refine ⟨?_, ?_, ?_, ?_, ?_, ?_⟩
  · rw [hregistry]
    exact hs.coherent.bind hfree _
  · intro h
    rw [hgraph, Graph.count_push]
    -- the new handle has its key and no other one gets any
    by_cases hh : h = s.graph.count
    · subst hh
      simp [hnew]
    · rw [hother h hh, hs.registered]
      exact ⟨Nat.lt_succ_of_lt, fun hlt => Nat.lt_of_le_of_ne (Nat.lt_succ_iff.mp hlt) hh⟩
  · intro h p hp
    rw [hgraph, Graph.count_push]
    rw [hgraph, Graph.get_push] at hp
    split at hp
    · exact Nat.lt_succ_of_lt (hparts p hp)
    · exact Nat.lt_succ_of_lt (hs.parts h p hp)
  · intro h hagg p hp
    rw [hgraph, Graph.get_push] at hp hagg
    split at hp
    · rename_i hh
      exact hh ▸ hparts p hp
    · rename_i hh
      rw [if_neg hh] at hagg
      exact hs.below h hagg p hp
  · intro h k hk
    rw [hgraph, Graph.get_push]
    by_cases hh : h = s.graph.count
    · subst hh
      rw [hnew] at hk
      cases hk
      rw [if_pos rfl]
      exact hkey.mono hkeys
    · rw [if_neg hh]
      rw [hother h hh] at hk
      exact (hs.keyBuilt h k hk).mono hkeys
  · intro ref h hh
    rw [hdeclared] at hh
    rw [hgraph, Graph.count_push]
    exact Nat.lt_succ_of_lt (hs.declared ref h hh)

/-- `new` is the new instance if it is an aggregate, which then waits to be defined. -/
theorem Grows.push (hs : Linked s) {key : Key} {i : Instance} (new : List Handle)
    (hnew : ∀ h, h ∈ new ↔ h = s.graph.count ∧ ∃ a, i = .aggregate a) (hnodup : new.Nodup)
    (hempty : ∀ a, i = .aggregate a → IsEmpty a) (hgraph : s'.graph = s.graph.push i)
    (hregistry : s'.registry = s.registry.bind key s.graph.count)
    (hdiagnostics : s'.diagnostics = s.diagnostics) (hshapes : s'.shapes = s.shapes)
    (hdeclared : s'.declared = s.declared)
    (hplaced : ∀ h shape, s.placed.get? h = some shape → s'.placed.get? h = some shape)
    (hholders : s'.placeholders = s.placeholders ++ new)
    (hlist : s'.worklist = s.worklist ++ new) (hdefining : s'.defining = s.defining)
    (haliases : s'.openAliases = s.openAliases)
    (hwritable : Sourced s → key.isWritable = true) (hwanted : Wanted s key i) :
    Grows s s' := by
  have hcount : s'.graph.count = s.graph.count + 1 := by rw [hgraph, Graph.count_push]
  have hget : ∀ h, h < s.graph.count → s'.graph.get h = s.graph.get h := fun h hh => by
    rw [hgraph, Graph.get_push_of_lt hh]
  have hkeys : ∀ h, s.registry.keysOf h <+: s'.registry.keysOf h := fun h => by
    rw [hregistry]
    exact Registry.keysOf_prefix_bind _ _ _ _
  have hlater : Later s s' :=
    later_of (by omega) hget hkeys (fun ref answer ha => by rw [hshapes, ha])
      (hdiagnostics ▸ List.prefix_refl _) fun ref h hh => by rw [hdeclared, hh]
  exact {
    count := by omega
    get := hget
    keys := hkeys
    invalid := by rw [hregistry, Registry.invalid_bind]
    diagnostics := ⟨[], by simp [hdiagnostics], by simp⟩
    shapes := hlater.shapes
    declared := fun ref h hh => by rw [hdeclared, hh]
    placed := hplaced
    waiting := by
      refine ⟨new, hholders, hlist, hnodup, ?_, ?_⟩
      · intro h
        rw [hnew, hgraph, Graph.get_push]
        constructor
        · rintro ⟨rfl, a, ha⟩
          exact ⟨Nat.le_refl _, a, by rw [if_pos rfl, ha]⟩
        · rintro ⟨hh, a, ha⟩
          by_cases he : h = s.graph.count
          · exact ⟨he, a, by rwa [if_pos he] at ha⟩
          · rw [if_neg he] at ha
            exact absurd (Graph.lt_count_of_aggregate ha) (Nat.not_lt.mpr hh)
      · intro h hh a ha
        obtain ⟨rfl, b, hb⟩ := (hnew h).mp hh
        rw [hgraph, Graph.get_push_self] at ha
        exact hempty a ha
    defining := hdefining
    openAliases := haliases
    sourced := fun hsource => by
      -- the new instance is found under its key, because it was wanted under it
      refine hsource.bind hlater hregistry hdeclared (hwritable hsource) (.wanted ?_ ?_ ?_)
      · exact hcount ▸ Nat.lt_succ_self _
      · rw [hregistry, hs.keyOf?_bind_count]
      · rw [hgraph, Graph.get_push_self]
        exact hwanted.later hlater }

/-- A further key for an instance that has one keeps the tables well formed. -/
theorem WellFormed.bind (hs : WellFormed s) {key : Key} {h : Handle}
    (hfree : s.registry.get? key = none) (hknown : (s.registry.keys.get? h).isSome) :
    WellFormed { s with registry := s.registry.bind key h } := by
  have hcoherent := hs.coherent.bind hfree h
  have hkeys : ∀ x k, s.registry.keyOf? x = some k →
      (s.registry.bind key h).keyOf? x = some k := fun x k hk =>
    Registry.keyOf?_of_prefix (Registry.keysOf_prefix_bind s.registry key h x) hk
  -- the target had keys before, all others keep what they had
  have hsame : ∀ x, ((s.registry.bind key h).keyOf? x).isSome ↔
      (s.registry.keyOf? x).isSome := by
    intro x
    rw [hcoherent.isSome_keyOf?_iff, hs.coherent.isSome_keyOf?_iff, Registry.get?_keys_bind]
    split
    · rename_i hx
      simp [← hx, hknown]
    · rfl
  refine ⟨⟨hcoherent, fun x => (hsame x).trans (hs.registered x), hs.parts, hs.below, ?_,
    hs.declared⟩, hs.placed⟩
  intro x k hk
  obtain ⟨k', hk'⟩ := Option.isSome_iff_exists.mp
    ((hsame x).mp (Option.isSome_iff_exists.mpr ⟨k, hk⟩))
  have hkk : k = k' := Option.some.inj (hk.symm.trans (hkeys x k' hk'))
  subst hkk
  exact (hs.keyBuilt x k hk').mono hkeys

/-- A further key for an instance is found for a reason if the caller knows one. -/
theorem Grows.bind {key : Key} (h : Handle) (hwritable : Sourced s → key.isWritable = true)
    (hj : Sourced s → Justified s (.key key) h) :
    Grows s { s with registry := s.registry.bind key h } := by
  have hlonger := Registry.keysOf_prefix_bind s.registry key h
  have hlater : Later s { s with registry := s.registry.bind key h } :=
    later_of (Nat.le_refl _) (fun _ _ => rfl) hlonger (fun _ _ ha => ha) (List.prefix_refl _)
      fun _ _ hx => hx
  exact { Grows.refl s with
    keys := hlonger
    invalid := rfl
    sourced := fun hsource =>
      hsource.bind hlater rfl rfl (hwritable hsource) ((hj hsource).later hlater) }

/-! A reference that is remembered as declared changes neither the graph nor the registry. -/

theorem WellFormed.remember (hs : WellFormed s) (ref : Ref) {h : Handle} (hh : h < s.graph.count) :
    WellFormed { s with declared := s.declared.put ref h } := by
  refine ⟨⟨hs.coherent, hs.registered, hs.parts, hs.below, hs.keyBuilt, ?_⟩, hs.placed⟩
  intro r x hx
  have hx : (s.declared.put ref h).get? r = some x := hx
  rw [Assoc.get?_put] at hx
  split at hx
  · cases hx
    exact hh
  · exact hs.declared r x hx

theorem Later.remember (s : State σ) (ref : Ref) (h : Handle) :
    Later s { s with declared := s.declared.put ref h } :=
  { Later.refl s with
    declared := fun r hr => by
      show ((s.declared.put ref h).get? r).isSome = true
      rw [Assoc.get?_put]
      split
      · rfl
      · exact hr }

/-! ## 2. The registry

A key that is taken is refused by `register`, and passed over by `ensure` and `addAlias`, which
look it up first. -/

section

variable (task : Task σ)

/-- A report is one of those that mark nothing. -/
theorem steps_report (hs : WellFormed s) {d : Diagnostic}
    (hd : d.kind = .unresolvable ∨ d.kind = .duplicateMember) :
    Steps s (report d : Run σ Unit) fun _ s' => d ∈ s'.diagnostics :=
  (steps_modify hs rfl (fun _ _ ha => ha) ⟨[d], rfl, by simpa using hd⟩).mono fun _ s' _ hs' => by
    simp [hs']

/-- The first key of an instance, if it has one. -/
theorem steps_keyOf (hs : WellFormed s) (h : Handle) :
    Steps s (keyOf h) fun key s' => s' = s ∧ s.registry.keyOf? h = some key := by
  unfold keyOf
  refine steps_get_bind ?_
  split
  · rename_i key hkey
    exact steps_pure hs ⟨rfl, hkey⟩
  · exact steps_throw hs rfl _

/-- A handle of a state belongs to the graph. -/
def InGraph (h : Handle) (s : State σ) : Prop := h < s.graph.count

theorem InGraph.grow {h : Handle} (hh : InGraph h s) (hg : Grows s s') : InGraph h s' :=
  Nat.lt_of_lt_of_le hh hg.count

/-- Whatever is registered has to be wanted under its key, and the key has to be one that can be
written; that of a pointer, an array or a function can if the keys of its parts can. -/
theorem steps_register (hs : WellFormed s) {key : Key} {i : Instance}
    (hagg : ∀ a, i ≠ .aggregate a) (hparts : ∀ p ∈ i.parts, p.1 < s.graph.count)
    (hkey : KeyBuilt s.registry key i) (hwritable : Sourced s → key.isWritable = true)
    (hwanted : Wanted s key i) :
    Steps s (register task key i) fun h s' => s'.registry.get? key = some h := by
  unfold register
  refine steps_get_bind ?_
  split
  · rename_i r hr
    obtain ⟨hfree, rfl⟩ := hs.register_eq hr
    refine ⟨⟨hs.push hfree hparts hkey rfl rfl rfl, ?_⟩, ?_, ?_⟩
    · intro h
      show (∃ shape, s.placed.get? h = some shape) ↔ ∃ a, (s.graph.push i).get h = .aggregate a
      rw [hs.placed, Graph.get_push]
      split
      · rename_i hh
        rw [hh, Graph.get_of_count_le (Nat.le_refl _)]
        simp [hagg]
      · rfl
    · exact Grows.push hs.toLinked [] (by simp [hagg]) List.nodup_nil
        (fun a ha => absurd ha (hagg a)) rfl rfl rfl rfl rfl (fun _ _ h => h) (by simp) (by simp)
        rfl rfl hwritable hwanted
    · exact (Registry.get?_bind _ _ _ _).trans (if_pos rfl)
  · exact steps_throw hs rfl _

/-- What was there under the key is returned as it is, whatever it was wanted for. -/
theorem steps_ensure (hs : WellFormed s) {key : Key} {i : Instance}
    (hagg : ∀ a, i ≠ .aggregate a) (hparts : ∀ p ∈ i.parts, p.1 < s.graph.count)
    (hkey : KeyBuilt s.registry key i) (hwritable : Sourced s → key.isWritable = true)
    (hwanted : Wanted s key i) :
    Steps s (ensure task key i) fun h s' => s'.registry.get? key = some h := by
  unfold ensure
  refine steps_get_bind ?_
  split
  · rename_i h hh
    exact steps_pure hs hh
  · exact steps_register task hs hagg hparts hkey hwritable hwanted

/-- A placeholder is wanted because it was reported right before. -/
theorem steps_undefined (hs : WellFormed s) (name reason : String) :
    Steps s (undefined task name reason) fun h s' => s'.registry.get? (.named name) = some h := by
  unfold undefined
  refine steps_get_bind ?_
  split
  · rename_i h hh
    exact steps_pure hs hh
  · refine steps_bind (steps_report hs (Or.inl rfl)) ?_
    intro _ s' hs' _ hd
    exact steps_register task hs' (by simp)
      (fun p hp => absurd hp (Instance.not_mem_parts_undefined _ _)) trivial
      (fun _ => Key.isWritable_named name) (.undefined hd rfl rfl)

/-- A further key for an instance, if it is free. The instance is not looked at again: that it
may be found under this key is what `Justified` says, and the caller knows why. -/
theorem steps_addAlias (hs : WellFormed s) (key : Key) {h : Handle}
    (hwritable : Sourced s → key.isWritable = true)
    (hj : Sourced s → Justified s (.key key) h) :
    Steps s (addAlias task key h) fun _ _ => True := by
  unfold addAlias
  refine steps_get_bind ?_
  unfold Registry.addAlias
  cases hfree : s.registry.get? key with
  | some holder => exact ⟨hs, Grows.refl s, trivial⟩
  | none =>
    simp only
    split
    · rename_i r hr
      split at hr
      · rename_i hknown
        cases hr
        exact ⟨hs.bind hfree hknown, .bind h hwritable hj, trivial⟩
      · cases hr
    · exact steps_throw hs rfl _

/-! ## 3. The source and names

Answers and the size of pointers are remembered, so the tables of answers grow as well. All else
that happens here is silent: it changes what is known of the source and nothing that can be
found. -/

/-- A poll changes nothing but the session. -/
theorem steps_checkCancelled (hs : WellFormed s) :
    Steps s (checkCancelled task) fun _ s' => s'.shapes = s.shapes := by
  unfold checkCancelled
  refine steps_get_bind (steps_bind (steps_silent hs rfl rfl rfl) ?_)
  rintro _ s' hs' - rfl
  split
  · exact steps_throw hs' rfl _
  · exact steps_pure hs' rfl

/-- No stop in the declare phase is that of a value cycle: those come from the define phase
alone, and it matters there that nothing below raises one. -/
theorem isCycle_lookupStop (ref : Ref) (e : SourceFault) :
    (lookupStop task ref e).isCycle = false := by
  cases e <;> rfl

theorem isCycle_pointerSizeStop (e : SourceFault) : (pointerSizeStop task e).isCycle = false := by
  cases e <;> rfl

/-- An answer is remembered. -/
theorem steps_query (hs : WellFormed s) (ref : Ref) :
    Steps s (query task ref) fun answer s' => s'.shapes.get? ref = some answer := by
  unfold query
  refine steps_get_bind ?_
  split
  · rename_i answer hanswer
    exact steps_pure hs hanswer
  · rename_i hnone
    refine steps_bind (steps_checkCancelled task hs) ?_
    intro _ s₁ hs₁ _ hshapes
    refine steps_get_bind (steps_bind (steps_silent hs₁ rfl rfl rfl) ?_)
    rintro _ s₂ hs₂ - rfl
    split
    · exact steps_throw hs₂ (isCycle_lookupStop task ref _) _
    · refine steps_bind (steps_modify hs₂ rfl ?_ ⟨[], by simp, by simp⟩) ?_
      · -- the answers there were are to other references
        intro other answer ha
        rw [Assoc.get?_put, if_neg, ha]
        rintro rfl
        rw [hshapes, hnone] at ha
        cases ha
      · rintro _ s₃ hs₃ - rfl
        exact steps_pure hs₃ (by rw [Assoc.get?_put, if_pos rfl])

/-- The size of pointers goes into no key, so nothing has to be known of it. -/
theorem steps_pointerSize (hs : WellFormed s) : Steps s (pointerSize task) fun _ _ => True := by
  unfold pointerSize
  refine steps_get_bind ?_
  split
  · exact steps_pure hs trivial
  · refine steps_bind (steps_checkCancelled task hs) ?_
    intro _ s₁ hs₁ _ _
    refine steps_get_bind ?_
    split
    · exact steps_throw hs₁ (isCycle_pointerSizeStop task _) _
    · refine steps_bind (steps_silent hs₁ rfl rfl rfl) ?_
      intro _ s₂ hs₂ _ _
      exact steps_pure hs₂ trivial

/-- A check changes nothing. -/
theorem steps_needWritable (hs : WellFormed s) (writable : Bool) :
    Steps s (needWritable writable : Run σ Unit) fun _ s' => s' = s ∧ writable = true := by
  unfold needWritable
  split
  · rename_i hwritable
    exact steps_pure hs ⟨rfl, hwritable⟩
  · exact steps_throw hs rfl _

/-- The key of a type known by name, unless the name cannot be written. -/
theorem ensures_namedKey (name : String) (s : State σ) :
    Ensures (namedKey name : Run σ Key) s (fun key s' => key = keyOfName name ∧ s' = s)
      fun e s' => s' = s ∧ e.isCycle = false := by
  unfold namedKey keyOfName
  cases TypeName.parsePlain? name with
  | none => exact ⟨rfl, rfl⟩
  | some t =>
    simp only [needWritable]
    split
    · exact ⟨rfl, rfl⟩
    · exact ⟨rfl, rfl⟩

/-- The key of a name is a function of the name, whatever the state. -/
theorem namedKey_eq_ok {name : String} {key : Key} (hrun : namedKey name s = .ok key s') :
    key = keyOfName name ∧ s' = s :=
  (ensures_namedKey name s).of_ok hrun

theorem steps_namedKey (hs : WellFormed s) (name : String) :
    Steps s (namedKey name : Run σ Key) fun key s' => key = keyOfName name ∧ s' = s := by
  refine (ensures_namedKey name s).mono ?_ ?_
  · rintro key _ ⟨rfl, rfl⟩
    exact ⟨hs, Grows.refl _, rfl, rfl⟩
  · rintro e _ ⟨rfl, he⟩
    exact ⟨hs, Grows.refl _, he⟩

/-- A described type goes by its own name, by its id, or by a running number. Of the number
nothing is known but that it makes a name. -/
theorem steps_nameOf (hs : WellFormed s) (shape : Shape) :
    Steps s (nameOf shape : Run σ String) fun name _ => GoesBy shape name := by
  unfold nameOf
  split
  · rename_i hname
    exact steps_pure hs (.own (by simpa using hname))
  · rename_i hname
    have hempty : shape.name.isEmpty = true := by simpa using hname
    split
    · rename_i id hid
      exact steps_pure hs (.id hempty hid)
    · rename_i hid
      refine steps_bind (steps_silent hs rfl rfl rfl) ?_
      intro _ s₁ hs₁ _ _
      exact steps_get_bind (steps_pure hs₁ (.number _ hempty hid))

/-! ## 4. Types without a name of their own

Pointers, arrays and functions are wanted under their keys for what they are (`Wanted.pointer`
and so on). What has to be shown is that their parts are in the graph, and that the key can be
written because those of the parts can. -/

/-- A scalar is wanted if something that the source said needs it. -/
theorem steps_primitive (hs : WellFormed s) {kind : Primitive} (hneeded : Needed s kind) :
    Steps s (primitive task kind) fun h s' => s'.registry.get? (.primitive kind) = some h :=
  steps_ensure task hs (by simp)
    (by simp [Instance.parts, Instance.valueParts, Instance.referenceParts]) rfl
    (fun _ => Key.isWritable_primitive kind) (.primitive hneeded)

/-- A pointer is found under the key of its target's key. -/
theorem steps_pointer (hs : WellFormed s) (target : Handle) (size : Option Int) :
    Steps s (pointer task target size) fun h s' => ∃ key, s.registry.keyOf? target = some key ∧
      s'.registry.get? (.pointer key) = some h := by
  unfold pointer
  refine steps_bind (steps_keyOf hs target) ?_
  rintro key s₁ hs₁ - ⟨rfl, hkey⟩
  refine Steps.mono (P := fun h s' => s'.registry.get? key.pointer = some h) ?_
    fun h s' _ hh => ⟨key, hkey, hh⟩
  refine steps_get_bind ?_
  split
  · rename_i h hh
    exact steps_pure hs₁ hh
  -- the size is given, noted already, or asked for; the rest is the same
  · have hnext : ∀ (n : Int) (s₂ : State σ), WellFormed s₂ → Grows s₁ s₂ →
        Steps s₂ (register task key.pointer (.pointer target n))
          fun h s' => s'.registry.get? key.pointer = some h := by
      intro n s₂ hs₂ hg
      have hkey₂ := hg.keyOf? hkey
      refine steps_register task hs₂ (by simp) ?_ ⟨key, hkey₂, rfl⟩ (fun hsource => ?_) .pointer
      · intro p hp
        have hp : p = (target, false) := by
          simpa [Instance.parts, Instance.valueParts, Instance.referenceParts] using hp
        subst hp
        exact hs₂.lt_count_of_keyOf? hkey₂
      · rw [Key.isWritable_pointer]
        exact hsource.writable_of_keyOf? hs₂.coherent hkey₂
    have hsize := steps_pointerSize task hs₁
    simp only
    split
    · split
      · exact steps_bind hsize fun n s₂ hs₂ hg _ => hnext n s₂ hs₂ hg
      · exact hnext _ s₁ hs₁ (Grows.refl s₁)
    · exact steps_bind hsize fun n s₂ hs₂ hg _ => hnext n s₂ hs₂ hg

/-- An array is found under the key of its element's key and its length, which can be written. -/
theorem steps_array (hs : WellFormed s) (element : Handle) (length : Option Int) :
    Steps s (array task element length) fun h s' => length.all Text.isWritable = true ∧
      ∃ key, s.registry.keyOf? element = some key ∧
        s'.registry.get? (.array key length) = some h := by
  unfold array
  refine steps_bind (steps_keyOf hs element) ?_
  rintro key s₁ hs₁ - ⟨rfl, hkey⟩
  refine steps_bind (steps_needWritable hs₁ _) ?_
  rintro _ s₂ hs₂ - ⟨rfl, hlength⟩
  refine Steps.mono (P := fun h s' => s'.registry.get? (.array key length) = some h) ?_
    fun h s' _ hh => ⟨hlength, key, hkey, hh⟩
  refine steps_ensure task hs₂ (by simp) ?_ ⟨key, hkey, rfl⟩ (fun hsource => ?_) .array
  · intro p hp
    have hp : p = (element, true) := by
      simpa [Instance.parts, Instance.valueParts, Instance.referenceParts] using hp
    subst hp
    exact hs₂.lt_count_of_keyOf? hkey
  · rw [Key.isWritable_array]
    exact hsource.writable_of_keyOf? hs₂.coherent hkey

/-- A suffix makes a key of a key (`Suffix.key`), and an instance under it. -/
theorem steps_applySuffix (hs : WellFormed s) (h : Handle) (suffix : Suffix) :
    Steps s (applySuffix task h suffix) fun h' s' => suffix.isWritable = true ∧
      ∃ key, s.registry.keyOf? h = some key ∧ s'.registry.get? (suffix.key key) = some h' := by
  cases suffix with
  | array length =>
    refine (steps_array task hs h length).mono fun h' s' _ hh => ⟨?_, hh.2⟩
    cases length with
    | none => rfl
    | some n => simpa only [Suffix.isWritable, Option.all_some] using hh.1
  | pointer => exact (steps_pointer task hs h none).mono fun _ _ _ hh => ⟨rfl, hh⟩
  | reference => exact (steps_pointer task hs h none).mono fun _ _ _ hh => ⟨rfl, hh⟩

/-- What suffixes make of an instance is found again along their keys. -/
theorem steps_applySuffixes (suffixes : List Suffix) (hs : WellFormed s) {h : Handle}
    (hh : InGraph h s) : Steps s (applySuffixes task h suffixes) fun h' s' =>
      InGraph h' s' ∧ s'.registry.Wraps h suffixes h' := by
  induction suffixes generalizing s h with
  | nil => exact steps_pure hs ⟨hh, rfl⟩
  | cons suffix rest ih =>
    refine steps_bind (steps_applySuffix task hs h suffix) ?_
    rintro next s₁ hs₁ hg₁ ⟨hwritable, key, hkey, hnext⟩
    have hrest := ih hs₁ (hs₁.lt_count_of_get? hnext)
    refine Ensures.mono hrest (fun last s₂ ⟨hs₂, hg₂, hlast, hwraps⟩ => ?_) fun _ _ he => he
    exact ⟨hs₂, hg₂, hlast, hwritable, key, next, (hg₁.trans hg₂).keyOf? hkey,
      (hg₂.widens hs₁ hs₂).get? _ _ hnext, hwraps⟩

/-! ## 5. Shapes

A shape is what a reference is known to be described by (`Knows`). For each kind there is the
place where its answer is filed (`Filed`): under its own key, under the name of what could not be
made of it, or where its target is. -/

/-- How references are declared: the instance is in the graph, and it is remembered. -/
def Declares (declare : Ref → Run σ Handle) : Prop :=
  ∀ (s : State σ) (ref : Ref), WellFormed s →
    Steps s (declare ref) fun h s' => InGraph h s' ∧ s'.declared.get? ref = some h

variable {declare : Ref → Run σ Handle} (hdeclare : Declares declare)
include hdeclare

/-- References in a row: each handle stays in the graph while the others are declared. -/
theorem steps_declareAll (refs : List Ref) (hs : WellFormed s) :
    Steps s (declareAll declare refs) fun hs' s' => ∀ h ∈ hs', InGraph h s' := by
  induction refs generalizing s with
  | nil => exact steps_pure hs (by simp)
  | cons ref rest ih =>
    refine steps_bind (hdeclare s ref hs) ?_
    intro h s₁ hs₁ _ hh
    refine steps_bind (ih hs₁) ?_
    intro hs' s₂ hs₂ hg hhs
    refine steps_pure hs₂ ?_
    intro x hx
    rcases List.mem_cons.mp hx with rfl | hx
    · exact hh.1.grow hg
    · exact hhs x hx

omit hdeclare in
/-- The keys of handles, in order; the state stays. -/
theorem steps_keysOf (handles : List Handle) (hs : WellFormed s) :
    Steps s (keysOf handles) fun keys s' =>
      s' = s ∧ List.Forall₂ (fun h k => s.registry.keyOf? h = some k) handles keys := by
  induction handles with
  | nil => exact steps_pure hs ⟨rfl, .nil⟩
  | cons h rest ih =>
    refine steps_bind (steps_keyOf hs h) ?_
    rintro key s₁ - - ⟨rfl, hkey⟩
    refine steps_bind ih ?_
    rintro keys s₂ hs₂ - ⟨rfl, hkeys⟩
    exact steps_pure hs₂ ⟨rfl, .cons hkey hkeys⟩

/-- Opening a typedef and closing it again leaves no trace of it, also when the run in between
stops: nothing that was found goes back to what is open. -/
theorem steps_withOpenAlias (label : String) (ref : Ref) (hs : WellFormed s) :
    Steps s (withOpenAlias label (declare ref)) fun h s' =>
      s'.declared.get? ref = some h := by
  have hopen : WellFormed { s with openAliases := label :: s.openAliases } :=
    ⟨⟨hs.coherent, hs.registered, hs.parts, hs.below, hs.keyBuilt, hs.declared⟩, hs.placed⟩
  have hrun := hdeclare { s with openAliases := label :: s.openAliases } ref hopen
  have hclose : ∀ t : State σ, WellFormed t →
      Grows { s with openAliases := label :: s.openAliases } t →
      WellFormed { t with openAliases := t.openAliases.erase label } ∧
        Grows s { t with openAliases := t.openAliases.erase label } := by
    intro t ht hg
    refine ⟨⟨⟨ht.coherent, ht.registered, ht.parts, ht.below, ht.keyBuilt, ht.declared⟩,
      ht.placed⟩, ⟨hg.count, hg.get, hg.keys, hg.invalid, hg.diagnostics, hg.shapes, hg.declared,
      hg.placed, hg.waiting, hg.defining, ?_, fun hsource => ?_⟩⟩
    · show t.openAliases.erase label = s.openAliases
      rw [hg.openAliases, List.erase_cons_head]
    · have hopened : Sourced { s with openAliases := label :: s.openAliases } :=
        hsource.same { Later.refl s with } rfl rfl
      exact (hg.sourced hopened).same { Later.refl t with } rfl rfl
  unfold Steps Ensures withOpenAlias
  unfold Steps Ensures at hrun
  cases hr : declare ref { s with openAliases := label :: s.openAliases } with
  | ok h t =>
    simp only [hr] at hrun ⊢
    obtain ⟨ht, hg, -, hh⟩ := hrun
    exact ⟨(hclose t ht hg).1, (hclose t ht hg).2, hh⟩
  | error e t =>
    simp only [hr] at hrun ⊢
    obtain ⟨ht, hg, he⟩ := hrun
    exact ⟨(hclose t ht hg).1, (hclose t ht hg).2, he⟩

/-- What a shape is declared as is found where its answer is filed; `ref` is the reference that the
answer is for, `label` what stands for a name. -/
def Files (label : String) (answer : Option Shape) (h : Handle) (s : State σ) : Prop :=
  ∃ e, Filed label answer e ∧ s.find? e = some h

variable {label : String} {ref : Ref} {shape : Shape}

/-- A typedef is what its target is, and may be found under its own name from then on. Where it
has no target, or is met while it is open, it is a placeholder under its label. -/
theorem steps_declareAlias (hs : WellFormed s) (hknows : Knows s ref shape)
    (hkind : shape.kind = .typedef) :
    Steps s (declareAlias task declare label shape) (Files label (some shape)) := by
  unfold declareAlias
  split
  · rename_i htarget
    exact (steps_undefined task hs _ _).mono fun _ _ _ hh => ⟨_, .targetless hkind htarget, hh⟩
  · rename_i target htarget
    refine steps_get_bind ?_
    split
    · exact (steps_undefined task hs _ _).mono fun _ _ _ hh =>
        ⟨_, .reentered hkind (by simp [htarget]), hh⟩
    · refine steps_bind (steps_withOpenAlias hdeclare label target hs) ?_
      intro h s₁ hs₁ hg₁ hh
      split
      · rename_i hname
        refine steps_bind (steps_namedKey hs₁ _) ?_
        rintro _ s₂ hs₂ - ⟨rfl, rfl⟩
        refine steps_bind (steps_addAlias task hs₂ _ (fun _ => isWritable_keyOfName _)
          fun hsource => ?_) ?_
        · exact .typedef (hg₁.shapes _ _ hknows) hkind htarget (by simpa using hname)
            (hsource.justified (.ref target) h hh)
        · intro _ s₃ hs₃ hg₃ _
          exact steps_pure hs₃ ⟨.ref target, .target hkind htarget, hg₃.declared _ _ hh⟩
      · exact steps_pure hs₁ ⟨.ref target, .target hkind htarget, hh⟩

omit hdeclare in
/-- Members that come twice are reported. -/
theorem steps_distinctMembers (owner : String) (seen : List String)
    (members : List (String × Int)) (hs : WellFormed s) :
    Steps s (distinctMembers task owner seen members) fun _ _ => True := by
  induction members generalizing s seen with
  | nil => exact steps_pure hs trivial
  | cons m rest ih =>
    obtain ⟨name, value⟩ := m
    unfold distinctMembers
    split
    · refine steps_bind (steps_report hs (Or.inr rfl)) ?_
      intro _ s₁ hs₁ _ _
      exact ih seen hs₁
    · refine steps_bind (ih _ hs) ?_
      intro _ s₁ hs₁ _ _
      exact steps_pure hs₁ trivial

/-- An enumeration is registered under the key of its name, with an underlying type in the graph.
The answer was remembered before, so it is still known when the enumeration is registered. -/
theorem steps_declareEnumeration (hs : WellFormed s) (hknows : Knows s ref shape)
    (hkind : shape.kind = .enumeration) :
    Steps s (declareEnumeration task declare shape) (Files label (some shape)) := by
  unfold declareEnumeration
  refine steps_bind (steps_nameOf hs shape) ?_
  intro name s₁ hs₁ hg₁ hname
  refine steps_bind (steps_namedKey hs₁ name) ?_
  rintro _ s₂ hs₂ - ⟨rfl, rfl⟩
  have hknows₂ : Knows s₂ ref shape := hg₁.shapes _ _ hknows
  refine Steps.mono (P := fun h s' => s'.registry.get? (keyOfName name) = some h) ?_
    fun h s' _ hh => ⟨_, .enumeration hkind hname, hh⟩
  refine steps_get_bind ?_
  split
  · rename_i h hh
    exact steps_pure hs₂ hh
  · have hnext : ∀ (underlying : Handle) (s₃ : State σ), WellFormed s₃ → Grows s₂ s₃ →
        InGraph underlying s₃ →
        Steps s₃ (do
          let members ← distinctMembers task name [] shape.members
          register task (keyOfName name) (.enumeration
            { name := (splitName name).2, scope := (splitName name).1, underlying, members }))
          fun h s' => s'.registry.get? (keyOfName name) = some h := by
      intro underlying s₃ hs₃ hg₃ hunder
      refine steps_bind (steps_distinctMembers task name [] shape.members hs₃) ?_
      intro members s₄ hs₄ hg₄ _
      refine steps_register task hs₄ (by simp) ?_ trivial (fun _ => isWritable_keyOfName name)
        (.enumeration ((hg₃.trans hg₄).shapes _ _ hknows₂) hkind hname rfl)
      intro p hp
      have hp : p = (underlying, true) := by
        simpa [Instance.parts, Instance.valueParts, Instance.referenceParts] using hp
      subst hp
      exact hunder.grow hg₄
    simp only
    split
    · exact steps_bind (hdeclare s₂ _ hs₂) fun h s₃ hs₃ hg₃ hh => hnext h s₃ hs₃ hg₃ hh.1
    · rename_i hunderlying
      exact steps_bind
        (steps_primitive task hs₂ ⟨ref, shape, hknows₂, .underlying hkind hunderlying⟩)
        fun h s₃ hs₃ hg₃ hh => hnext h s₃ hs₃ hg₃ (hs₃.lt_count_of_get? hh)

/-- A function is known by its result, its parameters and whether it is variadic; its own name is
in its instance but not in its key. -/
theorem steps_declareFunction (hs : WellFormed s) (hknows : Knows s ref shape)
    (hkind : shape.kind = .function) :
    Steps s (declareFunction task declare shape) (Files label (some shape)) := by
  unfold declareFunction
  have hnext : ∀ (result : Handle) (s₁ : State σ), WellFormed s₁ → InGraph result s₁ →
      Steps s₁ (do
        let parameters ← declareAll declare shape.parameters
        let key := Key.function (← keyOf result) (← keysOf parameters) shape.variadic
        let name := if shape.name.isEmpty then none else some shape.name
        ensure task key (.function { result, parameters, variadic := shape.variadic, name }))
        (Files label (some shape)) := by
    intro result s₁ hs₁ hresult
    refine steps_bind (steps_declareAll hdeclare shape.parameters hs₁) ?_
    intro parameters s₂ hs₂ hg₂ hparameters
    refine steps_bind (steps_keyOf hs₂ result) ?_
    rintro key s₃ hs₃ - ⟨rfl, hkey⟩
    refine steps_bind (steps_keysOf parameters hs₃) ?_
    rintro keys s₄ hs₄ - ⟨rfl, hkeys⟩
    refine Steps.mono
      (P := fun h s' => s'.registry.get? (.function key keys shape.variadic) = some h) ?_
      fun h s' _ hh => ⟨_, .function hkind, hh⟩
    refine steps_ensure task hs₄ (by simp) ?_ ⟨key, keys, hkey, hkeys, rfl⟩
      (fun hsource => ?_) .function
    · intro p hp
      have hp : p.1 = result ∨ p.1 ∈ parameters := by
        rcases Instance.mem_parts_iff.mp hp with ⟨-, hv⟩ | ⟨-, hr⟩
        · cases hv
        · exact List.mem_cons.mp hr
      rcases hp with hp | hp
      · exact hp ▸ hresult.grow hg₂
      · exact hparameters p.1 hp
    · -- the parameters have keys, which can be written as all keys can
      have hall : ∀ k ∈ keys, k.isWritable = true := by
        clear hparameters
        induction hkeys with
        | nil => exact List.forall_mem_nil _
        | cons hk _ ih =>
          exact List.forall_mem_cons.mpr ⟨hsource.writable_of_keyOf? hs₄.coherent hk, ih⟩
      exact Key.isWritable_function.mpr ⟨hsource.writable_of_keyOf? hs₄.coherent hkey, hall⟩
  simp only
  split
  · exact steps_bind (hdeclare s _ hs) fun h s₁ hs₁ _ hh => hnext h s₁ hs₁ hh.1
  · rename_i hresult
    exact steps_bind (steps_primitive task hs ⟨ref, shape, hknows, .result hkind hresult⟩)
      fun h s₁ hs₁ _ hh => hnext h s₁ hs₁ (hs₁.lt_count_of_get? hh)

/-- What template arguments are declared as: the types are in the graph, and numbers stay. -/
structure DeclaredArguments (arguments : List Argument) (found : List TemplateArgument)
    (s : State σ) : Prop where
  inGraph : ∀ h, TemplateArgument.type h ∈ found → InGraph h s
  numbers : found.map TemplateArgument.number? = arguments.map Argument.number?

/-- Template arguments are declared in order. -/
theorem steps_declareArguments (arguments : List Argument) (hs : WellFormed s) :
    Steps s (declareArguments declare arguments) (DeclaredArguments arguments) := by
  induction arguments generalizing s with
  | nil => exact steps_pure hs ⟨by simp, rfl⟩
  | cons argument rest ih =>
    cases argument with
    | number n =>
      unfold declareArguments
      refine steps_bind (ih hs) ?_
      intro found s₁ hs₁ _ hfound
      exact steps_pure hs₁ ⟨by simpa using hfound.inGraph, congrArg (some n :: ·) hfound.numbers⟩
    | type t =>
      unfold declareArguments
      refine steps_bind (steps_needWritable hs _) ?_
      rintro _ _ hs₁ - ⟨rfl, -⟩
      refine steps_bind (hdeclare _ _ hs₁) ?_
      intro h s₂ hs₂ _ hh
      refine steps_bind (ih hs₂) ?_
      intro found s₃ hs₃ hg₃ hfound
      refine steps_pure hs₃ ⟨fun x hx => ?_, congrArg (none :: ·) hfound.numbers⟩
      rcases List.mem_cons.mp hx with hx | hx
      · cases hx
        exact hh.1.grow hg₃
      · exact hfound.inGraph x hx

/-- The keys of template arguments: those of the types, and the numbers. -/
structure ArgumentKeys (arguments : List TemplateArgument) (keys : List KeyArgument)
    (s : State σ) : Prop where
  keyed : ∀ key, KeyArgument.key key ∈ keys → ∃ h, s.registry.keyOf? h = some key
  numbers : keys.map KeyArgument.number? = arguments.map TemplateArgument.number?

omit hdeclare in
/-- Their keys are read off; the state stays. -/
theorem steps_argumentKeys (arguments : List TemplateArgument) (hs : WellFormed s) :
    Steps s (argumentKeys arguments) fun keys s' => s' = s ∧ ArgumentKeys arguments keys s := by
  induction arguments with
  | nil => exact steps_pure hs ⟨rfl, by simp, rfl⟩
  | cons argument rest ih =>
    cases argument with
    | number n =>
      unfold argumentKeys
      refine steps_bind ih ?_
      rintro keys s₁ hs₁ - ⟨rfl, hkeys⟩
      exact steps_pure hs₁ ⟨rfl, by simpa using hkeys.keyed, congrArg (some n :: ·) hkeys.numbers⟩
    | type h =>
      unfold argumentKeys
      refine steps_bind (steps_keyOf hs h) ?_
      rintro key s₁ - - ⟨rfl, hkey⟩
      refine steps_bind ih ?_
      rintro keys s₂ hs₂ - ⟨rfl, hkeys⟩
      refine steps_pure hs₂ ⟨rfl, fun k hk => ?_, congrArg (none :: ·) hkeys.numbers⟩
      rcases List.mem_cons.mp hk with hk | hk
      · cases hk
        exact ⟨h, hkey⟩
      · exact hkeys.keyed k hk

omit hdeclare in
/-- An aggregate is registered without parts, and it is put on the worklist and among the
placeholders with its shape. -/
theorem steps_placeNew (hs : WellFormed s) {key : Key} {a : Aggregate} (shape : Shape)
    (hempty : IsEmpty a) (hkind : a.kindLost = false)
    (hparts : ∀ h ∈ (a.template.map TemplateUse.types).getD [], InGraph h s)
    (hwritable : Sourced s → key.isWritable = true) (hwanted : Wanted s key (.aggregate a)) :
    Steps s (placeNew task key a shape) fun h s' => s'.registry.get? key = some h := by
  have hall : ∀ p ∈ (Instance.aggregate a).parts, p.1 < s.graph.count := by
    intro p hp
    obtain ⟨hbases, hfields, -⟩ := hempty
    rcases Instance.mem_parts_iff.mp hp with ⟨-, hv⟩ | ⟨-, hr⟩
    · simp [Instance.valueParts, hbases, hfields] at hv
    · exact hparts p.1 hr
  unfold placeNew
  refine steps_get_bind ?_
  split
  · rename_i h hh
    exact steps_pure hs hh
  · unfold Steps Ensures place register
    simp only [bind_assoc, run_get_bind]
    cases hr : s.registry.register key s.graph.count with
    | error e => exact ⟨hs, Grows.refl s, rfl⟩
    | ok r =>
      obtain ⟨hfree, rfl⟩ := hs.register_eq hr
      refine ⟨⟨hs.push hfree hall hkind rfl rfl rfl, ?_⟩, ?_, ?_⟩
      · -- placed are the aggregates there were, and the new one
        intro h
        show (∃ sh, (s.placed.put s.graph.count shape).get? h = some sh) ↔
          ∃ b, (s.graph.push (.aggregate a)).get h = .aggregate b
        rw [Assoc.get?_put, Graph.get_push]
        by_cases hh : h = s.graph.count
        · simp [hh]
        · rw [if_neg (Ne.symm hh), if_neg hh, hs.placed]
      · refine Grows.push hs.toLinked [s.graph.count] (by simp) (by simp) ?_ rfl rfl rfl rfl rfl ?_
          rfl rfl rfl rfl hwritable hwanted
        · intro b hb
          cases hb
          exact hempty
        · intro h sh hsh
          show (s.placed.put s.graph.count shape).get? h = some sh
          rw [Assoc.get?_put, if_neg, hsh]
          -- what was placed before lies below
          rintro rfl
          obtain ⟨b, hb⟩ := (hs.placed _).mp ⟨sh, hsh⟩
          exact absurd (Graph.lt_count_of_aggregate hb) (Nat.lt_irrefl _)
      · exact (Registry.get?_bind _ _ _ _).trans (if_pos rfl)

/-- A struct or union is found under its name, or under the name of its template with the keys of
the arguments. -/
theorem steps_declareAggregate (hs : WellFormed s) (hknows : Knows s ref shape)
    (hkind : shape.kind = .struct ∨ shape.kind = .union) :
    Steps s (declareAggregate task declare shape) (Files label (some shape)) := by
  unfold declareAggregate
  refine steps_bind (steps_nameOf hs shape) ?_
  intro name s₁ hs₁ hg₁ hname
  split
  · rename_i t ht
    refine steps_bind (steps_declareArguments hdeclare t.arguments hs₁) ?_
    intro arguments s₂ hs₂ hg₂ hfound
    refine steps_bind (steps_argumentKeys arguments hs₂) ?_
    rintro keys s₃ hs₃ - ⟨rfl, hkeys⟩
    refine steps_bind (steps_needWritable hs₃ _) ?_
    rintro _ s₄ hs₄ - ⟨rfl, hwritable⟩
    have hnumbers := hkeys.numbers.trans hfound.numbers
    have hkey : AggregateKey name (.mk t.baseName keys) := aggregateKey_of_template ht hnumbers
    refine (steps_placeNew task hs₄ shape ⟨rfl, rfl, rfl⟩ rfl ?_ (fun hsource => ?_)
      (.aggregate ((hg₁.trans hg₂).shapes _ _ hknows) hkind hname hkey)).mono
      fun h s' _ hh => ⟨_, .aggregate hkind hname hkey, hh⟩
    · intro h hh
      refine hfound.inGraph h ?_
      simp only [Option.map_some, Option.getD_some, TemplateUse.types, List.mem_filterMap] at hh
      obtain ⟨argument, hmem, he⟩ := hh
      cases argument with
      | type x =>
        cases he
        exact hmem
      | number n => cases he
    · -- numbers are those of the name, which can be written
      refine Key.isWritable_mk.mpr fun a ha => ?_
      cases a with
      | key k =>
        obtain ⟨x, hx⟩ := hkeys.keyed k ha
        exact hsource.writable_of_keyOf? hs₄.coherent hx
      | number n => exact TypeName.isWritable_of_map_number? hwritable hnumbers ha
  · rename_i ht
    refine steps_bind (steps_namedKey hs₁ name) ?_
    rintro _ s₂ hs₂ - ⟨rfl, rfl⟩
    have hkey : AggregateKey name (keyOfName name) := by rw [AggregateKey, ht]
    exact (steps_placeNew task hs₂ shape ⟨rfl, rfl, rfl⟩ rfl (by simp)
      (fun _ => isWritable_keyOfName name)
      (.aggregate (hg₁.shapes _ _ hknows) hkind hname hkey)).mono
      fun h s' _ hh => ⟨_, .aggregate hkind hname hkey, hh⟩

/-- What is declared for an answer is found where it is filed; that the answer is the one
remembered for `ref` is what makes the instance wanted. -/
theorem steps_declareShape {answer : Option Shape} (hs : WellFormed s)
    (hanswer : s.shapes.get? ref = some answer) :
    Steps s (declareShape task declare label answer) (Files label answer) := by
  cases answer with
  | none => exact (steps_undefined task hs _ _).mono fun _ _ _ hh => ⟨_, .unknown, hh⟩
  | some shape =>
    unfold declareShape
    simp only
    split
    · rename_i hkind
      exact (steps_primitive task hs ⟨ref, shape, hanswer, .self hkind⟩).mono
        fun _ _ _ hh => ⟨_, .primitive hkind, hh⟩
    · rename_i hkind
      have hpointer {target : Handle} {s₁ : State σ} (hs₁ : WellFormed s₁) :
          Steps s₁ (pointer task target shape.size) (Files label (some shape)) :=
        (steps_pointer task hs₁ target _).mono fun _ _ _ ⟨key, _, hh⟩ =>
          ⟨.key (.pointer key), .pointer hkind, hh⟩
      split
      · rename_i htarget
        exact steps_bind (steps_primitive task hs ⟨ref, shape, hanswer, .target hkind htarget⟩)
          fun h s₁ hs₁ _ _ => hpointer hs₁
      · exact steps_bind (hdeclare s _ hs) fun h s₁ hs₁ _ _ => hpointer hs₁
    · rename_i hkind
      split
      · rename_i htarget
        exact (steps_undefined task hs _ _).mono fun _ _ _ hh =>
          ⟨_, .elementless hkind htarget, hh⟩
      · rename_i htarget
        refine steps_bind (hdeclare s _ hs) ?_
        intro h s₁ hs₁ _ _
        exact (steps_array task hs₁ h _).mono fun _ _ _ ⟨_, key, _, hh⟩ =>
          ⟨.key (.array key shape.length), .array hkind (by simp [htarget]), hh⟩
    · rename_i hkind
      exact steps_declareAlias task hdeclare hs hanswer hkind
    · rename_i hkind
      exact steps_declareEnumeration task hdeclare hs hanswer hkind
    · rename_i hkind
      exact steps_declareFunction task hdeclare hs hanswer hkind
    · rename_i hkind
      exact steps_declareAggregate task hdeclare hs hanswer (.inl hkind)
    · rename_i hkind
      exact steps_declareAggregate task hdeclare hs hanswer (.inr hkind)
    · rename_i hkind
      exact (steps_undefined task hs _ _).mono fun _ _ _ hh => ⟨_, .unsupported hkind, hh⟩

/-! ## 6. References

A reference passes on to an entry of a table: a text to the spelling that it is a respelling of
or to the key of its last suffix, and what is described to where its answer is filed
(`PassesTo`). -/

/-- The instance is found by an entry that the reference passes to. -/
def Passes (ref : Ref) (h : Handle) (s : State σ) : Prop :=
  ∃ e, PassesTo s ref e ∧ s.find? e = some h

/-- What the source is asked about passes on to where the answer is filed. -/
theorem steps_declareDescribed (ref : Ref) (hs : WellFormed s) (hdescribed : IsDescribed ref) :
    Steps s (declareDescribed task declare (labelOf ref) ref) (Passes ref) := by
  unfold declareDescribed
  refine steps_bind (steps_query task hs ref) ?_
  intro answer s₁ hs₁ _ hanswer
  exact (steps_declareShape task hdeclare hs₁ hanswer).mono fun _ _ hg ⟨e, hfiled, hh⟩ =>
    ⟨e, .described hdescribed (hg.shapes _ _ hanswer) hfiled, hh⟩

/-- A text is refused, wraps a base in suffixes, is a respelling, or is asked about. -/
theorem steps_declareName (text : String) (hs : WellFormed s) :
    Steps s (declareName task declare text) (Passes (.name text)) := by
  unfold declareName
  cases hparse : TypeName.parse text with
  | error e => exact (steps_undefined task hs _ _).mono fun _ _ _ hh => ⟨_, .refused hparse, hh⟩
  | ok t =>
    refine steps_bind (steps_needWritable hs _) ?_
    rintro _ _ hs₁ - ⟨rfl, -⟩
    split
    · rename_i hsuffixes
      refine steps_bind (hdeclare _ _ hs₁) ?_
      intro base s₂ hs₂ _ hbase
      refine (steps_applySuffixes task _ hs₂ hbase.1).mono fun h s' _ ⟨_, hwraps⟩ => ?_
      -- there is a last suffix, and its key leads to the result
      obtain ⟨first, suffix, hlast⟩ : ∃ first suffix, t.wrapping = first ++ [suffix] := by
        rcases List.eq_nil_or_concat t.wrapping with hnil | ⟨first, suffix, hlast⟩
        · simp [TypeName.suffixes_eq_nil_of_wrapping hnil] at hsuffixes
        · exact ⟨first, suffix, by simpa using hlast⟩
      rw [hlast, Registry.wraps_append] at hwraps
      obtain ⟨mid, -, -, key, next, -, hnext, rfl⟩ := hwraps
      exact ⟨_, .wrapped hparse hlast, hnext⟩
    · rename_i hsuffixes
      have hplain : t.suffixes = [] := by simpa using hsuffixes
      split
      · exact (hdeclare _ _ hs₁).mono fun _ _ _ hh => ⟨_, .respelled hparse hplain, hh.2⟩
      · rename_i hformat
        exact steps_declareDescribed task hdeclare (.name text) hs₁
          ⟨t, hparse, hplain, not_not.mp hformat⟩

/-- A reference that is not known yet passes on to what it is declared as. -/
theorem steps_declareNew (ref : Ref) (hs : WellFormed s) :
    Steps s (declareNew task declare ref) (Passes ref) := by
  cases ref with
  | name text => exact steps_declareName task hdeclare text hs
  | id n => exact steps_declareDescribed task hdeclare (.id n) hs trivial

/-- A reference is remembered at the end. Until then it may have been met again and remembered
for something else, but not if it was known at the start. -/
theorem declares_declareOnce : Declares (declareOnce task declare) := by
  intro s ref hs
  unfold declareOnce
  refine steps_get_bind ?_
  split
  · rename_i h hh
    exact steps_pure hs ⟨hs.declared ref h hh, hh⟩
  · rename_i hnone
    refine ensures_bind (steps_declareNew task hdeclare ref hs) ?_
    rintro h t ⟨ht, hg, e, hpasses, hfound⟩
    have hin : InGraph h t := ht.lt_count_of_find? hfound
    have hself : (t.declared.put ref h).get? ref = some h := by
      rw [Assoc.get?_put, if_pos rfl]
    have hput : ∀ r x, s.declared.get? r = some x →
        (t.declared.put ref h).get? r = some x := by
      intro r x hx
      rw [Assoc.get?_put, if_neg, hg.declared r x hx]
      rintro rfl
      rw [hnone] at hx
      cases hx
    have hlater := Later.remember t ref h
    refine ⟨ht.remember ref hin,
      { hg with declared := hput, sourced := fun hsource => ?_ }, hin, hself⟩
    -- it stands for what it passes to, which was found
    have htarget := (hg.sourced hsource).justified e h hfound
    exact (hg.sourced hsource).declare hlater rfl rfl
      (.declared (Option.isSome_iff_exists.mpr ⟨h, hself⟩) (hpasses.later hlater)
        (htarget.later hlater))

omit hdeclare in
/-- **Declaring only adds**, however many references it may follow. -/
theorem declares_declare (n : Nat) : Declares (NativeTypes.Resolver.declare task n) := by
  induction n with
  | zero =>
    intro s ref hs
    exact steps_throw hs rfl _
  | succ n ih => exact declares_declareOnce task ih

end

end NativeTypes.Resolver
