/-
NativeTypes.Proofs.Resolver.Containment — who embeds whom by value, and what
defining leaves as it was.

* `Contains` — the shape that an aggregate was placed with has a base or
  field whose declared type is, under its arrays, the other instance.
* `Ring` — distinct instances, each containing the next and the last the
  first: what the report of a cycle lists.
* `Follows` — an aggregate has the bases and fields of a shape, in order.
* `Evolves` — what defining changes at most. Whatever is complete, or
  neither waits nor is named as an exception, stays what it is.

All of the former three are read off references that were declared and
instances under arrays, and those do not change any more: `Evolves` carries
each of them on.
-/
import Mathlib.Data.List.Chain
import NativeTypes.Proofs.Resolver.WellFormed

namespace NativeTypes

/-- The references of the bases and fields of a shape. -/
def Shape.partRefs (shape : Shape) : List Ref :=
  shape.bases.map BaseShape.type ++ shape.fields.map FieldShape.type

namespace Resolver

variable {σ : Type} {s s' s'' : State σ} {own : List Handle}

/-! ## 1. Under arrays -/

theorem innermost_of_array {g : Graph} {h e : Handle} {n : Option Int}
    (ha : g.get h = .array e n) (he : e < h) : innermost g h = innermost g e := by
  rw [innermost, ha]
  simp only [if_pos he]

theorem innermost_of_not_array {g : Graph} {h : Handle} (ha : ∀ e n, g.get h ≠ .array e n) :
    innermost g h = h := by
  rw [innermost]
  split
  · rename_i e n he
    exact absurd he (ha e n)
  · rfl

theorem innermost_le (g : Graph) (h : Handle) : innermost g h ≤ h := by
  induction h using Nat.strongRecOn with
  | ind h ih =>
    rw [innermost]
    split
    · split
      · rename_i hlt
        exact Nat.le_trans (ih _ hlt) (Nat.le_of_lt hlt)
      · exact Nat.le_refl h
    · exact Nat.le_refl h

/-- The element of an array lies below it. -/
theorem Linked.element_lt (hs : Linked s) {h e : Handle} {n : Option Int}
    (ha : s.graph.get h = .array e n) : e < h := by
  refine hs.below h (fun a hc => ?_) (e, true) ?_
  · rw [ha] at hc
    cases hc
  · rw [ha]
    exact Instance.mem_parts_of_valueParts (by simp [Instance.valueParts])

/-! ## 2. What defining changes at most -/

/-- The aggregate takes no more parts. -/
def IsComplete (g : Graph) (h : Handle) : Prop := ∃ a, g.get h = .aggregate a ∧ a.stage = .complete

/-- The aggregate still takes parts. -/
def IsGrowing (g : Graph) (h : Handle) : Prop := ∃ a, g.get h = .aggregate a ∧ a.stage = .growing

theorem IsComplete.not_growing {g : Graph} {h : Handle} (hc : IsComplete g h) : ¬IsGrowing g h := by
  rintro ⟨b, hb, hgrowing⟩
  obtain ⟨a, ha, hcomplete⟩ := hc
  rw [ha] at hb
  cases hb
  rw [hcomplete] at hgrowing
  cases hgrowing

theorem IsComplete.isFinalized {g : Graph} {h : Handle} (hc : IsComplete g h) :
    (g.get h).isFinalized = true := by
  obtain ⟨a, ha, hcomplete⟩ := hc
  rw [ha]
  simp [Instance.isFinalized, Aggregate.isFinalized, hcomplete]

theorem IsGrowing.not_finalized {g : Graph} {h : Handle} (hg : IsGrowing g h) :
    (g.get h).isFinalized = false := by
  obtain ⟨a, ha, hgrowing⟩ := hg
  rw [ha]
  simp [Instance.isFinalized, Aggregate.isFinalized, hgrowing]

/-- What defining changes at most: aggregates that waited, and those of `own`, take parts. -/
structure Evolves (own : List Handle) (s s' : State σ) : Prop where
  count : s.graph.count ≤ s'.graph.count
  other : ∀ h, h < s.graph.count → (∀ a, s.graph.get h ≠ .aggregate a) →
    s'.graph.get h = s.graph.get h
  aggregate : ∀ h a, s.graph.get h = .aggregate a → ∃ a', s'.graph.get h = .aggregate a'
  complete : ∀ h a, s.graph.get h = .aggregate a → a.stage = .complete →
    s'.graph.get h = .aggregate a
  kept : ∀ h, h < s.graph.count → h ∉ s.placeholders → h ∉ own →
    s'.graph.get h = s.graph.get h
  keys : ∀ h, s.registry.keysOf h <+: s'.registry.keysOf h
  invalid : ∀ h reason, s.registry.invalid.get? h = some reason →
    s'.registry.invalid.get? h = some reason
  diagnostics : s.diagnostics <+: s'.diagnostics
  declared : ∀ ref h, s.declared.get? ref = some h → s'.declared.get? ref = some h
  placed : ∀ h shape, s.placed.get? h = some shape → s'.placed.get? h = some shape
  worklist : s.worklist <+: s'.worklist
  placeholders : ∀ h ∈ s'.placeholders,
    h ∈ s.placeholders ∨ s.graph.count ≤ h ∧ h ∈ s'.worklist
  openAliases : s'.openAliases = s.openAliases

namespace Evolves

/-- A change of nothing but marks and diagnostics. -/
theorem of_marks (hgraph : s'.graph = s.graph)
    (hkeys : ∀ h, s'.registry.keysOf h = s.registry.keysOf h)
    (hinvalid : ∀ h reason, s.registry.invalid.get? h = some reason →
      s'.registry.invalid.get? h = some reason)
    (hdiagnostics : s.diagnostics <+: s'.diagnostics) (hdeclared : s'.declared = s.declared)
    (hplaced : s'.placed = s.placed) (hlist : s'.worklist = s.worklist)
    (hholders : s'.placeholders = s.placeholders) (haliases : s'.openAliases = s.openAliases) :
    Evolves own s s' where
  count := by rw [hgraph]
  other := fun h _ _ => by rw [hgraph]
  aggregate := fun h a ha => ⟨a, by rw [hgraph, ha]⟩
  complete := fun h a ha _ => by rw [hgraph, ha]
  kept := fun h _ _ _ => by rw [hgraph]
  keys := fun h => hkeys h ▸ List.prefix_refl _
  invalid := hinvalid
  diagnostics := hdiagnostics
  declared := fun ref h hh => by rw [hdeclared, hh]
  placed := fun h shape hh => by rw [hplaced, hh]
  worklist := hlist ▸ List.prefix_refl _
  placeholders := fun h hh => Or.inl (hholders ▸ hh)
  openAliases := haliases

theorem refl (own : List Handle) (s : State σ) : Evolves own s s :=
  of_marks rfl (fun _ => rfl) (fun _ _ h => h) (List.prefix_refl _) rfl rfl rfl rfl rfl

theorem trans (h : Evolves own s s') (h' : Evolves own s' s'') : Evolves own s s'' where
  count := Nat.le_trans h.count h'.count
  other := fun x hx ha => by
    have hsame := h.other x hx ha
    rw [h'.other x (Nat.lt_of_lt_of_le hx h.count) (hsame ▸ ha), hsame]
  aggregate := fun x a ha => by
    obtain ⟨a', ha'⟩ := h.aggregate x a ha
    exact h'.aggregate x a' ha'
  complete := fun x a ha hc => h'.complete x a (h.complete x a ha hc) hc
  kept := fun x hx hp hown => by
    refine (h'.kept x (Nat.lt_of_lt_of_le hx h.count) ?_ hown).trans (h.kept x hx hp hown)
    intro hp'
    rcases h.placeholders x hp' with hold | ⟨hnew, -⟩
    · exact hp hold
    · exact absurd hx (Nat.not_lt.mpr hnew)
  keys := fun x => (h.keys x).trans (h'.keys x)
  invalid := fun x reason hx => h'.invalid x reason (h.invalid x reason hx)
  diagnostics := h.diagnostics.trans h'.diagnostics
  declared := fun ref x hx => h'.declared ref x (h.declared ref x hx)
  placed := fun x shape hx => h'.placed x shape (h.placed x shape hx)
  worklist := h.worklist.trans h'.worklist
  placeholders := fun x hx => by
    rcases h'.placeholders x hx with hmid | ⟨hnew, hlist⟩
    · rcases h.placeholders x hmid with hold | ⟨hnew, hlist⟩
      · exact Or.inl hold
      · exact Or.inr ⟨hnew, h'.worklist.subset hlist⟩
    · exact Or.inr ⟨Nat.le_trans h.count hnew, hlist⟩
  openAliases := h'.openAliases.trans h.openAliases

/-- More exceptions. -/
theorem weaken (h : Evolves [] s s') : Evolves own s s' :=
  { h with kept := fun x hx hp _ => h.kept x hx hp (by simp) }

/-- Fewer exceptions: an aggregate that waited need not be named. -/
theorem of_waiting {x : Handle} (h : Evolves [x] s s') (hx : x ∈ s.placeholders) :
    Evolves [] s s' :=
  { h with
    kept := fun y hy hp _ => h.kept y hy hp fun hmem => hp (List.mem_singleton.mp hmem ▸ hx) }

theorem keyOf? (h : Evolves own s s') {x : Handle} {key : Key}
    (hk : s.registry.keyOf? x = some key) : s'.registry.keyOf? x = some key :=
  Registry.keyOf?_of_prefix (h.keys x) hk

theorem isInvalid (h : Evolves own s s') {x : Handle} (hx : s.registry.isInvalid x = true) :
    s'.registry.isInvalid x = true := by
  obtain ⟨reason, hr⟩ := (Registry.isInvalid_iff _ _).mp hx
  exact (Registry.isInvalid_iff _ _).mpr ⟨reason, h.invalid x reason hr⟩

theorem keyText (hs : Linked s) (h : Evolves own s s') (module : String) {x : Handle}
    (hx : x < s.graph.count) : s'.registry.keyText module x = s.registry.keyText module x := by
  obtain ⟨key, hk⟩ := hs.exists_key hx
  unfold Registry.keyText
  rw [hk, h.keyOf? hk]

/-- What lies under arrays stays. -/
theorem innermost (hs : Linked s) (h : Evolves own s s') {x : Handle}
    (hx : x < s.graph.count) : innermost s'.graph x = innermost s.graph x := by
  induction x using Nat.strongRecOn with
  | ind x ih =>
    cases hget : s.graph.get x with
    | array e n =>
      have hlt := hs.element_lt hget
      have hget' : s'.graph.get x = .array e n := by
        rw [h.other x hx (fun a hc => by rw [hget] at hc; cases hc), hget]
      rw [innermost_of_array hget hlt, innermost_of_array hget' hlt]
      exact ih e hlt (Nat.lt_trans hlt hx)
    | aggregate a =>
      obtain ⟨a', ha'⟩ := h.aggregate x a hget
      rw [innermost_of_not_array (g := s'.graph) (by simp [ha']),
        innermost_of_not_array (by simp [hget])]
    | _ =>
      have hget' := h.other x hx (by simp [hget])
      rw [innermost_of_not_array (g := s'.graph) (by simp [hget', hget]),
        innermost_of_not_array (by simp [hget])]

end Evolves

/-- Declaring changes less than defining. -/
theorem Grows.evolves (h : Grows s s') : Evolves own s s' where
  count := h.count
  other := fun x hx _ => h.get x hx
  aggregate := fun x a ha => ⟨a, by rw [h.get x (Graph.lt_count_of_aggregate ha), ha]⟩
  complete := fun x a ha _ => by rw [h.get x (Graph.lt_count_of_aggregate ha), ha]
  kept := fun x hx _ _ => h.get x hx
  keys := h.keys
  invalid := fun x reason hx => by rw [h.invalid, hx]
  diagnostics := by
    obtain ⟨ds, hds, -⟩ := h.diagnostics
    exact ⟨ds, hds.symm⟩
  declared := h.declared
  placed := h.placed
  worklist := by
    obtain ⟨new, -, hlist, -⟩ := h.waiting
    exact ⟨new, hlist.symm⟩
  placeholders := fun x hx => by
    obtain ⟨new, hholders, hlist, -, hnew, -⟩ := h.waiting
    rw [hholders, List.mem_append] at hx
    rcases hx with hx | hx
    · exact Or.inl hx
    · refine Or.inr ⟨((hnew x).mp hx).1, ?_⟩
      rw [hlist]
      exact List.mem_append_right _ hx
  openAliases := h.openAliases

/-! ## 3. Containment by value -/

/-- The shape that `x` was placed with has a base or field whose declared type is `y` or an
array of `y`, at any depth. -/
def Contains (s : State σ) (x y : Handle) : Prop :=
  ∃ shape ref t, s.placed.get? x = some shape ∧ ref ∈ shape.partRefs ∧
    s.declared.get? ref = some t ∧ innermost s.graph t = y

/-- Distinct instances in a circle, each of which contains the next one. -/
def Ring (s : State σ) (ring : List Handle) : Prop :=
  ring ≠ [] ∧ ring.Nodup ∧ (ring ++ ring.take 1).IsChain (Contains s)

/-- The problem that the report of a ring is about. -/
def ringProblem (module : String) (r : Registry Key) (ring : List Handle) : TypeProblem :=
  .valueCycle (ring.map (r.keyText module))

/-- The report of a ring, entered at its first member. -/
def ringReport (module : String) (r : Registry Key) (ring : List Handle) : Diagnostic :=
  (ringProblem module r ring).diagnostic (r.keyText module (ring.headD 0)) module

/-- A base is as described, and of the declared type. -/
def FollowsBase (s : State σ) (b : BaseShape) (p : BasePart) : Prop :=
  s.declared.get? b.type = some p.type ∧ p.offset = b.offset ∧ p.isTruth = b.isTruth

/-- A field is as described, and of the declared type. -/
def FollowsField (s : State σ) (f : FieldShape) (p : FieldPart) : Prop :=
  s.declared.get? f.type = some p.type ∧ p.name = f.name ∧ p.offset = f.offset ∧
    p.bitOffset = f.bitOffset ∧ p.bitWidth = f.bitWidth ∧ p.isTruth = f.isTruth

/-- An aggregate has the bases and fields of a shape, in order. -/
def Follows (s : State σ) (shape : Shape) (a : Aggregate) : Prop :=
  List.Forall₂ (FollowsBase s) shape.bases a.bases ∧
    List.Forall₂ (FollowsField s) shape.fields a.fields

section

variable (hs : Linked s) (h : Evolves own s s')
include hs h

theorem Contains.evolve {x y : Handle} (hc : Contains s x y) : Contains s' x y := by
  obtain ⟨shape, ref, t, hshape, href, ht, hy⟩ := hc
  refine ⟨shape, ref, t, h.placed x shape hshape, href, h.declared ref t ht, ?_⟩
  rw [h.innermost hs (hs.declared ref t ht), hy]

theorem Ring.evolve {ring : List Handle} (hr : Ring s ring) : Ring s' ring :=
  ⟨hr.1, hr.2.1, hr.2.2.imp fun _ _ hc => hc.evolve hs h⟩

omit hs in
theorem Follows.evolve {shape : Shape} {a : Aggregate} (hf : Follows s shape a) :
    Follows s' shape a :=
  ⟨hf.1.imp fun _ _ hb => ⟨h.declared _ _ hb.1, hb.2⟩,
    hf.2.imp fun _ _ hp => ⟨h.declared _ _ hp.1, hp.2⟩⟩

theorem ringProblem_evolve (module : String) {ring : List Handle}
    (hr : ∀ x ∈ ring, x < s.graph.count) :
    ringProblem module s'.registry ring = ringProblem module s.registry ring := by
  unfold ringProblem
  congr 1
  exact List.map_congr_left fun x hx => h.keyText hs module (hr x hx)

theorem ringReport_evolve (module : String) {ring : List Handle} (hne : ring ≠ [])
    (hr : ∀ x ∈ ring, x < s.graph.count) :
    ringReport module s'.registry ring = ringReport module s.registry ring := by
  unfold ringReport
  rw [ringProblem_evolve hs h module hr]
  congr 1
  cases ring with
  | nil => exact absurd rfl hne
  | cons x rest => exact h.keyText hs module (hr x (by simp))

end

end Resolver

end NativeTypes
