/-
NativeTypes.Proofs.Resolver.WellFormed — what holds of a resolver at every
moment, and how declaring changes it.

* `WellFormed` — the instances of the graph are those that have keys, the
  two tables of the registry agree, parts lie inside the graph, the key of
  a pointer, array or function is made of the keys of its parts, and the
  aggregates are what was placed with a shape.
* `Grows` — what declaring does to a state: instances, keys, answers and
  warnings are added, new aggregates wait with empty hands, and nothing
  that was there before changes. What is added goes back to what the source
  said, so sourced states stay sourced (`Grows.sourced`).
* `Steps` — a run from a state leads to a well-formed state that grew out
  of it, whether it returns or stops, and it never stops because of a cycle:
  declaring does not define anything.

`Steps` is closed under sequencing (`steps_bind`), so a function of the
resolver steps because its parts do.
-/
import Mathlib.Data.List.Forall2
import NativeTypes.Proofs.Instance.Graph
import NativeTypes.Proofs.Resolver.Sources
import NativeTypes.Proofs.Runs

namespace NativeTypes

/-- The run stopped at an aggregate that is being defined. -/
def Stop.isCycle : Stop → Bool
  | valueCycle _ => true
  | _ => false

namespace Resolver

variable {σ : Type} {α β : Type}

/-! ## 1. Outcomes of a run -/

/-- What a run that starts in `s` guarantees: `Q` of what it returns and of the state it
leaves, `E` of why it stops and of the state it leaves. -/
def Ensures (run : Run σ α) (s : State σ) (Q : α → State σ → Prop)
    (E : Stop → State σ → Prop) : Prop :=
  match run s with
  | .ok a s' => Q a s'
  | .error e s' => E e s'

theorem ensures_bind {run : Run σ α} {next : α → Run σ β} {s : State σ}
    {P : α → State σ → Prop} {Q : β → State σ → Prop} {E : Stop → State σ → Prop}
    (hrun : Ensures run s P E) (hnext : ∀ a s', P a s' → Ensures (next a) s' Q E) :
    Ensures (run >>= next) s Q E := by
  unfold Ensures at hrun ⊢
  cases hr : run s with
  | ok a s' =>
    rw [hr] at hrun
    rw [run_bind_ok hr]
    exact hnext a s' hrun
  | error e s' =>
    rw [hr] at hrun
    rw [run_bind_error hr]
    exact hrun

theorem Ensures.mono {run : Run σ α} {s : State σ} {P Q : α → State σ → Prop}
    {E F : Stop → State σ → Prop} (hrun : Ensures run s P E) (hQ : ∀ a s', P a s' → Q a s')
    (hE : ∀ e s', E e s' → F e s') : Ensures run s Q F := by
  unfold Ensures at hrun ⊢
  cases hr : run s with
  | ok a s' =>
    rw [hr] at hrun
    exact hQ a s' hrun
  | error e s' =>
    rw [hr] at hrun
    exact hE e s' hrun

theorem Ensures.of_ok {run : Run σ α} {s s' : State σ} {a : α} {Q : α → State σ → Prop}
    {E : Stop → State σ → Prop} (hrun : Ensures run s Q E) (hr : run s = .ok a s') :
    Q a s' := by
  unfold Ensures at hrun
  rw [hr] at hrun
  exact hrun

theorem Ensures.of_error {run : Run σ α} {s s' : State σ} {e : Stop} {Q : α → State σ → Prop}
    {E : Stop → State σ → Prop} (hrun : Ensures run s Q E) (hr : run s = .error e s') :
    E e s' := by
  unfold Ensures at hrun
  rw [hr] at hrun
  exact hrun

/-- The run from `s` returns, and what it returns and leaves passes a check. -/
def returns (run : Run σ α) (s : State σ) (check : α → State σ → Bool) : Bool :=
  match run s with
  | .ok a s' => check a s'
  | .error _ _ => false

theorem exists_of_returns {run : Run σ α} {s : State σ} {check : α → State σ → Bool}
    (h : returns run s check = true) : ∃ a s', run s = .ok a s' ∧ check a s' = true := by
  unfold returns at h
  cases hr : run s with
  | ok a s' =>
    rw [hr] at h
    exact ⟨a, s', rfl, h⟩
  | error e s' =>
    rw [hr] at h
    cases h

/-! ## 2. Well-formed states -/

/-- The key of a scalar is its own, that of a pointer, an array or a function is made of the keys of
its parts, and what was registered as an aggregate has not lost its kind. -/
def KeyBuilt (r : Registry Key) (key : Key) : Instance → Prop
  | .primitive kind => key = .primitive kind
  | .aggregate a => a.kindLost = false
  | .pointer target _ => ∃ k, r.keyOf? target = some k ∧ key = .pointer k
  | .array element length => ∃ k, r.keyOf? element = some k ∧ key = .array k length
  | .function f => ∃ k ks, r.keyOf? f.result = some k ∧
      List.Forall₂ (fun p k => r.keyOf? p = some k) f.parameters ks ∧
      key = .function k ks f.variadic
  | _ => True

theorem KeyBuilt.mono {r r' : Registry Key} {key : Key} {i : Instance}
    (hkeys : ∀ h k, r.keyOf? h = some k → r'.keyOf? h = some k) (hb : KeyBuilt r key i) :
    KeyBuilt r' key i := by
  cases i with
  | primitive kind => exact hb
  | aggregate a => exact hb
  | pointer target size =>
    obtain ⟨k, hk, he⟩ := hb
    exact ⟨k, hkeys _ _ hk, he⟩
  | array element length =>
    obtain ⟨k, hk, he⟩ := hb
    exact ⟨k, hkeys _ _ hk, he⟩
  | function f =>
    obtain ⟨k, ks, hk, hks, he⟩ := hb
    exact ⟨k, ks, hkeys _ _ hk, hks.imp fun p k => hkeys p k, he⟩
  | _ => trivial

/-- The graph, the registry and the remembered references fit together. -/
structure Linked (s : State σ) : Prop where
  coherent : s.registry.Coherent
  registered : ∀ h, (s.registry.keyOf? h).isSome ↔ h < s.graph.count
  parts : ∀ h, ∀ p ∈ (s.graph.get h).parts, p.1 < s.graph.count
  below : ∀ h, (∀ a, s.graph.get h ≠ .aggregate a) → ∀ p ∈ (s.graph.get h).parts, p.1 < h
  keyBuilt : ∀ h key, s.registry.keyOf? h = some key →
    KeyBuilt s.registry key (s.graph.get h)
  declared : ∀ ref h, s.declared.get? ref = some h → h < s.graph.count

/-- What holds of a resolver at every moment. -/
structure WellFormed (s : State σ) : Prop extends Linked s where
  placed : ∀ h, (∃ shape, s.placed.get? h = some shape) ↔ ∃ a, s.graph.get h = .aggregate a

namespace Linked

variable {s : State σ}

theorem exists_key (hs : Linked s) {h : Handle} (hh : h < s.graph.count) :
    ∃ key, s.registry.keyOf? h = some key :=
  Option.isSome_iff_exists.mp ((hs.registered h).mpr hh)

theorem lt_count_of_keyOf? (hs : Linked s) {h : Handle} {key : Key}
    (hk : s.registry.keyOf? h = some key) : h < s.graph.count :=
  (hs.registered h).mp (Option.isSome_iff_exists.mpr ⟨key, hk⟩)

theorem keysOf_count (hs : Linked s) : s.registry.keysOf s.graph.count = [] := by
  cases hk : s.registry.keysOf s.graph.count with
  | nil => rfl
  | cons key rest =>
    have hkey : s.registry.keyOf? s.graph.count = some key := by
      unfold Registry.keyOf?
      rw [hk]
      rfl
    exact absurd (hs.lt_count_of_keyOf? hkey) (Nat.lt_irrefl _)

/-- What a key leads to is in the graph. -/
theorem lt_count_of_get? (hs : Linked s) {h : Handle} {key : Key}
    (hk : s.registry.get? key = some h) : h < s.graph.count := by
  have hm := (hs.coherent.get?_iff key h).mp hk
  refine (hs.registered h).mp ?_
  unfold Registry.keyOf?
  cases hks : s.registry.keysOf h with
  | nil =>
    rw [hks] at hm
    cases hm
  | cons k ks => simp

theorem lt_count_of_find? (hs : Linked s) {e : Entry} {h : Handle} (hh : s.find? e = some h) :
    h < s.graph.count := by
  cases e with
  | key key => exact hs.lt_count_of_get? hh
  | ref ref => exact hs.declared ref h hh

end Linked

/-! ## 3. Growth -/

/-- An aggregate as it is placed: without parts, and open to take them. -/
def IsEmpty (a : Aggregate) : Prop := a.bases = [] ∧ a.fields = [] ∧ a.stage = .growing

/-- What declaring does to a state. -/
structure Grows (s s' : State σ) : Prop where
  count : s.graph.count ≤ s'.graph.count
  get : ∀ h, h < s.graph.count → s'.graph.get h = s.graph.get h
  keys : ∀ h, s.registry.keysOf h <+: s'.registry.keysOf h
  invalid : s'.registry.invalid = s.registry.invalid
  diagnostics : ∃ ds, s'.diagnostics = s.diagnostics ++ ds ∧
    ∀ d ∈ ds, d.kind = .unresolvable ∨ d.kind = .duplicateMember
  shapes : ∀ ref answer, s.shapes.get? ref = some answer → s'.shapes.get? ref = some answer
  declared : ∀ ref h, s.declared.get? ref = some h → s'.declared.get? ref = some h
  placed : ∀ h shape, s.placed.get? h = some shape → s'.placed.get? h = some shape
  waiting : ∃ new, s'.placeholders = s.placeholders ++ new ∧ s'.worklist = s.worklist ++ new ∧
    new.Nodup ∧ (∀ h, h ∈ new ↔ s.graph.count ≤ h ∧ ∃ a, s'.graph.get h = .aggregate a) ∧
    ∀ h ∈ new, ∀ a, s'.graph.get h = .aggregate a → IsEmpty a
  defining : s'.defining = s.defining
  openAliases : s'.openAliases = s.openAliases
  sourced : Sourced s → Sourced s'

/-- What the steps of declaring are about: all but the source's own state, its answers, the
diagnostics and the running number. -/
def tables (s : State σ) :=
  (s.graph, s.registry, s.declared, s.placed, s.placeholders, s.worklist, s.defining,
    s.openAliases)

namespace Grows

variable {s s' s'' : State σ}

/-- A state that grew out of another one is a later state. Of a change that is yet to be shown to
be a growth, this takes what makes it later. -/
theorem later_of (hcount : s.graph.count ≤ s'.graph.count)
    (hget : ∀ h, h < s.graph.count → s'.graph.get h = s.graph.get h)
    (hkeys : ∀ h, s.registry.keysOf h <+: s'.registry.keysOf h)
    (hshapes : ∀ ref answer, s.shapes.get? ref = some answer → s'.shapes.get? ref = some answer)
    (hdiagnostics : s.diagnostics <+: s'.diagnostics)
    (hdeclared : ∀ ref h, s.declared.get? ref = some h → s'.declared.get? ref = some h) :
    Later s s' where
  count := hcount
  get := fun h hh => .inl (hget h hh)
  keys := fun h _ hk => Registry.keyOf?_of_prefix (hkeys h) hk
  shapes := hshapes
  diagnostics := fun _ hd => hdiagnostics.subset hd
  declared := fun ref hr => by
    obtain ⟨h, hh⟩ := Option.isSome_iff_exists.mp hr
    exact Option.isSome_iff_exists.mpr ⟨h, hdeclared ref h hh⟩

/-- Nothing but answers and warnings is added. -/
theorem of_tables_eq (h : tables s' = tables s)
    (hshapes : ∀ ref answer, s.shapes.get? ref = some answer → s'.shapes.get? ref = some answer)
    (hd : ∃ ds, s'.diagnostics = s.diagnostics ++ ds ∧
      ∀ d ∈ ds, d.kind = .unresolvable ∨ d.kind = .duplicateMember) : Grows s s' := by
  simp only [tables, Prod.mk.injEq] at h
  obtain ⟨hgraph, hregistry, hdeclared, hplaced, hholders, hlist, hdefining, haliases⟩ := h
  have hkeys : ∀ x, s.registry.keysOf x <+: s'.registry.keysOf x :=
    fun x => hregistry ▸ List.prefix_refl _
  refine ⟨Nat.le_of_eq (by rw [hgraph]), fun x _ => by rw [hgraph], hkeys, by rw [hregistry],
    hd, hshapes, fun ref x hx => by rw [hdeclared, hx], fun x shape hx => by rw [hplaced, hx], ?_,
    hdefining, haliases, fun hs => ?_⟩
  · refine ⟨[], by simp [hholders], by simp [hlist], List.nodup_nil, ?_, by simp⟩
    intro x
    rw [hgraph]
    constructor
    · intro hx
      cases hx
    · rintro ⟨hx, a, ha⟩
      exact absurd (Graph.lt_count_of_aggregate ha) (Nat.not_lt.mpr hx)
  · obtain ⟨ds, hds, -⟩ := hd
    exact hs.same (later_of (Nat.le_of_eq (by rw [hgraph])) (fun x _ => by rw [hgraph]) hkeys
      hshapes ⟨ds, hds.symm⟩ fun ref x hx => by rw [hdeclared, hx]) hregistry hdeclared

theorem refl (s : State σ) : Grows s s :=
  of_tables_eq rfl (fun _ _ ha => ha) ⟨[], by simp, by simp⟩

theorem trans (h : Grows s s') (h' : Grows s' s'') : Grows s s'' where
  count := Nat.le_trans h.count h'.count
  get := fun x hx => (h'.get x (Nat.lt_of_lt_of_le hx h.count)).trans (h.get x hx)
  keys := fun x => (h.keys x).trans (h'.keys x)
  invalid := h'.invalid.trans h.invalid
  diagnostics := by
    obtain ⟨ds, hds, hk⟩ := h.diagnostics
    obtain ⟨ds', hds', hk'⟩ := h'.diagnostics
    refine ⟨ds ++ ds', by rw [hds', hds, List.append_assoc], ?_⟩
    intro d hd
    rcases List.mem_append.mp hd with hd | hd
    · exact hk d hd
    · exact hk' d hd
  shapes := fun ref answer ha => h'.shapes ref answer (h.shapes ref answer ha)
  declared := fun ref x hx => h'.declared ref x (h.declared ref x hx)
  placed := fun x shape hx => h'.placed x shape (h.placed x shape hx)
  waiting := by
    obtain ⟨new, hp, hw, hn, hm, he⟩ := h.waiting
    obtain ⟨new', hp', hw', hn', hm', he'⟩ := h'.waiting
    -- an instance of the first stretch reads the same after the second
    have hold : ∀ x, x < s'.graph.count → s''.graph.get x = s'.graph.get x := h'.get
    have hlt : ∀ x ∈ new, x < s'.graph.count := fun x hx =>
      Graph.lt_count_of_aggregate ((hm x).mp hx).2.choose_spec
    refine ⟨new ++ new', by rw [hp', hp, List.append_assoc], by rw [hw', hw, List.append_assoc],
      ?_, ?_, ?_⟩
    · refine List.nodup_append.mpr ⟨hn, hn', ?_⟩
      intro x hx y hy hxy
      subst hxy
      exact absurd (hlt x hx) (Nat.not_lt.mpr ((hm' x).mp hy).1)
    · intro x
      rw [List.mem_append, hm, hm']
      constructor
      · rintro (⟨hx, a, ha⟩ | ⟨hx, ha⟩)
        · exact ⟨hx, a, (hold x (Graph.lt_count_of_aggregate ha)).trans ha⟩
        · exact ⟨Nat.le_trans h.count hx, ha⟩
      · rintro ⟨hx, a, ha⟩
        by_cases hx' : x < s'.graph.count
        · exact Or.inl ⟨hx, a, (hold x hx') ▸ ha⟩
        · exact Or.inr ⟨Nat.le_of_not_lt hx', a, ha⟩
    · intro x hx a ha
      rcases List.mem_append.mp hx with hx | hx
      · exact he x hx a ((hold x (hlt x hx)) ▸ ha)
      · exact he' x hx a ha
  defining := h'.defining.trans h.defining
  openAliases := h'.openAliases.trans h.openAliases
  sourced := fun hs => h'.sourced (h.sourced hs)

theorem keyOf? (h : Grows s s') {x : Handle} {key : Key} (hk : s.registry.keyOf? x = some key) :
    s'.registry.keyOf? x = some key :=
  Registry.keyOf?_of_prefix (h.keys x) hk

theorem widens (h : Grows s s') (hs : WellFormed s) (hs' : WellFormed s') :
    s.registry.Widens s'.registry :=
  Registry.widens_of_prefix hs.coherent hs'.coherent h.keys

end Grows

/-! ## 4. Steps of declaring -/

/-- A run from `s` leads to a well-formed state that grew out of `s`, whether it returns or
stops; it does not stop because of a cycle, and what it returns satisfies `Q`. -/
def Steps (s : State σ) (run : Run σ α) (Q : α → State σ → Prop) : Prop :=
  Ensures run s (fun a s' => WellFormed s' ∧ Grows s s' ∧ Q a s')
    fun e s' => WellFormed s' ∧ Grows s s' ∧ e.isCycle = false

section

variable {s : State σ}

theorem steps_pure (hs : WellFormed s) {a : α} {Q : α → State σ → Prop} (ha : Q a s) :
    Steps s (pure a) Q :=
  ⟨hs, Grows.refl s, ha⟩

theorem steps_throw (hs : WellFormed s) {e : Stop} (he : e.isCycle = false)
    (Q : α → State σ → Prop) : Steps s (throw e) Q :=
  ⟨hs, Grows.refl s, he⟩

theorem steps_bind {run : Run σ α} {next : α → Run σ β} {P : α → State σ → Prop}
    {Q : β → State σ → Prop} (hrun : Steps s run P)
    (hnext : ∀ a s', WellFormed s' → Grows s s' → P a s' → Steps s' (next a) Q) :
    Steps s (run >>= next) Q := by
  refine ensures_bind hrun ?_
  rintro a s' ⟨hs', hg, ha⟩
  exact (hnext a s' hs' hg ha).mono (fun b t ⟨ht, hgt, hb⟩ => ⟨ht, hg.trans hgt, hb⟩)
    fun e t ⟨ht, hgt, he⟩ => ⟨ht, hg.trans hgt, he⟩

/-- Reading the state first. -/
theorem steps_get_bind {next : State σ → Run σ β} {Q : β → State σ → Prop}
    (hnext : Steps s (next s) Q) : Steps s (get >>= next) Q :=
  hnext

theorem Steps.mono {run : Run σ α} {P Q : α → State σ → Prop} (hrun : Steps s run P)
    (h : ∀ a s', Grows s s' → P a s' → Q a s') : Steps s run Q :=
  Ensures.mono hrun (fun a s' ⟨hs', hg, ha⟩ => ⟨hs', hg, h a s' hg ha⟩) fun _ _ he => he

/-- A change that leaves the tables alone and adds at most answers and warnings. -/
theorem steps_modify (hs : WellFormed s) {f : State σ → State σ} (hf : tables (f s) = tables s)
    (hshapes : ∀ ref answer, s.shapes.get? ref = some answer →
      (f s).shapes.get? ref = some answer)
    (hd : ∃ ds, (f s).diagnostics = s.diagnostics ++ ds ∧
      ∀ d ∈ ds, d.kind = .unresolvable ∨ d.kind = .duplicateMember) :
    Steps s (modify f : Run σ PUnit) fun _ s' => s' = f s := by
  refine ⟨?_, Grows.of_tables_eq hf hshapes hd, rfl⟩
  simp only [tables, Prod.mk.injEq] at hf
  obtain ⟨hgraph, hregistry, hdeclared, hplaced, -⟩ := hf
  refine ⟨⟨hregistry ▸ hs.coherent, ?_, ?_, ?_, ?_, ?_⟩, ?_⟩
  · simpa [hregistry, hgraph] using hs.registered
  · simpa [hgraph] using hs.parts
  · simpa [hgraph] using hs.below
  · simpa [hregistry, hgraph] using hs.keyBuilt
  · simpa [hgraph, hdeclared] using hs.declared
  · simpa [hgraph, hplaced] using hs.placed

/-- A change of what the steps of declaring are not about. -/
theorem steps_silent (hs : WellFormed s) {f : State σ → State σ} (hf : tables (f s) = tables s)
    (hshapes : (f s).shapes = s.shapes) (hd : (f s).diagnostics = s.diagnostics) :
    Steps s (modify f : Run σ PUnit) fun _ s' => s' = f s :=
  steps_modify hs hf (fun _ _ ha => by rw [hshapes, ha]) ⟨[], by simp [hd], by simp⟩

end

end Resolver

end NativeTypes
