/-
NativeTypes.Proofs.Resolver.Sound — what holds while aggregates are defined.

* `Waiting` — an aggregate that is not complete waits or is being defined,
  in one place of one of the two lists, and those being defined contain each
  other by value, outermost first.
* `Grounded` — recorded parts are complete, and along them every descent
  from a complete aggregate ends.
* `Faithful` — a complete aggregate that is not invalid follows its shape.
* `Explained` — every mark of a cycle comes from a reported ring, and every
  reported cycle is a ring whose members are all marked. A ring that is being
  unwound is `pending`: its marks come before its report.

`Sound` is all of it. The states that defining goes through differ from
each other by few moves: something is declared (`Sound.grow`), an aggregate
is taken up (`Sound.enter`), takes a part (`Sound.assign`), is marked
(`Sound.of_marks`) and ends (`Sound.close`). There is one lemma for each.
-/
import Mathlib.Logic.Relation
import NativeTypes.Proofs.Resolver.Containment

namespace NativeTypes.Resolver

variable {σ : Type} {s s' : State σ} {own : List Handle} {module : String}
  {pending pending' : List Handle}

/-! ## 1. The invariant -/

/-- Under its arrays, a base or field of the aggregate `y` is `x`. -/
def IsPart (g : Graph) (x y : Handle) : Prop :=
  ∃ a, g.get y = .aggregate a ∧ ∃ p ∈ (g.get y).valueParts, innermost g p = x

/-- Aggregates that are not complete wait or are being defined. -/
structure Waiting (s : State σ) : Prop where
  nodup : (s.placeholders ++ s.defining).Nodup
  growing : ∀ h, IsGrowing s.graph h ↔ h ∈ s.placeholders ++ s.defining
  settled : ∀ h a, s.graph.get h = .aggregate a → IsGrowing s.graph h ∨ IsComplete s.graph h
  empty : ∀ h ∈ s.placeholders, ∀ a, s.graph.get h = .aggregate a → a.bases = [] ∧ a.fields = []
  nested : s.defining.IsChain (Contains s)

/-- Recorded parts are complete, and descending along them ends. -/
structure Grounded (g : Graph) : Prop where
  parts : ∀ x y, IsPart g x y → ∀ a, g.get x = .aggregate a → a.stage = .complete
  acc : ∀ h, IsComplete g h → Acc (IsPart g) h

/-- Complete aggregates that are not invalid follow their shapes. -/
def Faithful (s : State σ) : Prop :=
  ∀ h a shape, s.graph.get h = .aggregate a → a.stage = .complete →
    s.registry.isInvalid h = false → s.placed.get? h = some shape → Follows s shape a

/-- Why an instance is marked: it is on the pending ring, on a reported one, or its parts do
not fit. -/
inductive Explanation (module : String) (pending : List Handle) (s : State σ) (h : Handle) :
    String → Prop
  | pending : h ∈ pending →
      Explanation module pending s h (ringProblem module s.registry pending).message
  | ring (ring : List Handle) : Ring s ring → h ∈ ring →
      ringReport module s.registry ring ∈ s.diagnostics →
      Explanation module pending s h (ringProblem module s.registry ring).message
  | layout (fault : LayoutFault) : Explanation module pending s h fault.message

/-- Marks come from rings, and rings are marked. -/
structure Explained (module : String) (pending : List Handle) (s : State σ) : Prop where
  unwound : pending = [] ∨ Ring s pending
  marks : ∀ h reason, s.registry.invalid.get? h = some reason →
    Explanation module pending s h reason
  reports : ∀ d ∈ s.diagnostics, d.kind = .valueCycle → ∃ ring, Ring s ring ∧
    (∀ h ∈ ring, s.registry.isInvalid h = true) ∧ d = ringReport module s.registry ring

/-- What holds while aggregates are defined. -/
structure Sound (module : String) (pending : List Handle) (s : State σ) : Prop
    extends WellFormed s, Waiting s where
  grounded : Grounded s.graph
  faithful : Faithful s
  explained : Explained module pending s

/-! ## 2. What follows from it -/

/-- Every member of a chain that ends where it begins is followed by one. -/
theorem exists_rel_of_mem_isChain {α : Type} {R : α → α → Prop} {l : List α} {x : α}
    (hl : (l ++ l.take 1).IsChain R) (hx : x ∈ l) : ∃ y, R x y := by
  obtain ⟨before, after, rfl⟩ := List.append_of_mem hx
  have hchain : (before ++ ([x] ++ (after ++ (before ++ x :: after).take 1))).IsChain R := by
    simpa using hl
  have hrest := (List.isChain_append.mp hchain).2.1
  -- what stands behind `x` is not empty: at the latest the first member comes again
  cases hafter : after ++ (before ++ x :: after).take 1 with
  | nil =>
    cases before <;> simp at hafter
  | cons y rest =>
    rw [hafter] at hrest
    exact ⟨y, (List.isChain_cons_cons.mp hrest).1⟩

theorem Contains.isAggregate (hs : WellFormed s) {x y : Handle} (hc : Contains s x y) :
    ∃ a, s.graph.get x = .aggregate a := by
  obtain ⟨shape, -, -, hshape, -⟩ := hc
  exact (hs.placed x).mp ⟨shape, hshape⟩

theorem Ring.isAggregate (hs : WellFormed s) {ring : List Handle} (hr : Ring s ring) {x : Handle}
    (hx : x ∈ ring) : ∃ a, s.graph.get x = .aggregate a := by
  obtain ⟨y, hy⟩ := exists_rel_of_mem_isChain hr.2.2 hx
  exact hy.isAggregate hs

theorem Ring.lt_count (hs : WellFormed s) {ring : List Handle} (hr : Ring s ring) :
    ∀ x ∈ ring, x < s.graph.count := fun _ hx =>
  Graph.lt_count_of_aggregate (hr.isAggregate hs hx).choose_spec

theorem Waiting.not_growing_of_complete (hs : Waiting s) {h : Handle}
    (hc : IsComplete s.graph h) : h ∉ s.placeholders ++ s.defining := fun hmem =>
  hc.not_growing ((hs.growing h).mpr hmem)

theorem IsPart.lt_count (hs : Linked s) {x y : Handle} (hp : IsPart s.graph x y) :
    x < s.graph.count := by
  obtain ⟨a, ha, p, hmem, rfl⟩ := hp
  exact Nat.lt_of_le_of_lt (innermost_le _ _)
    (hs.parts y (p, true) (Instance.mem_parts_of_valueParts hmem))

/-- Parts of what was finished before are unchanged. -/
theorem IsPart.of_evolves (hs : Linked s) (he : Evolves own s s') {x y : Handle}
    (hy : IsComplete s.graph y) (hp : IsPart s'.graph x y) : IsPart s.graph x y := by
  obtain ⟨a, ha, hc⟩ := hy
  have hsame := he.complete y a ha hc
  obtain ⟨b, hb, p, hmem, hx⟩ := hp
  rw [hsame] at hmem
  rw [← ha] at hmem
  refine ⟨a, ha, p, hmem, ?_⟩
  rw [← he.innermost hs (hs.parts y (p, true) (Instance.mem_parts_of_valueParts hmem)), hx]

/-- What is no aggregate has no parts in this sense. -/
theorem acc_of_not_aggregate {g : Graph} {x : Handle} (hx : ∀ a, g.get x ≠ .aggregate a) :
    Acc (IsPart g) x := by
  refine Acc.intro x fun z hz => ?_
  obtain ⟨a, ha, -⟩ := hz
  exact absurd ha (hx a)

/-- Descending from what was finished before ends as it did. -/
theorem Grounded.acc_of_evolves (hg : Grounded s.graph) (hs : Linked s) (he : Evolves own s s')
    {h : Handle} (hh : IsComplete s.graph h) : Acc (IsPart s'.graph) h := by
  have hacc := hg.acc h hh
  induction hacc with
  | intro y _ ih =>
    refine Acc.intro y fun x hx => ?_
    have hold := hx.of_evolves hs he hh
    cases hget : s.graph.get x with
    | aggregate a => exact ih x hold ⟨a, hget, hg.parts x y hold a hget⟩
    | _ =>
      refine acc_of_not_aggregate fun b hb => ?_
      rw [he.other x (hold.lt_count hs) (by simp [hget]), hget] at hb
      cases hb

theorem Faithful.evolve (hf : Faithful s) (hs : WellFormed s) (he : Evolves own s s')
    (hsame : ∀ h a, s'.graph.get h = .aggregate a → a.stage = .complete →
      s.graph.get h = .aggregate a) : Faithful s' := by
  intro h a shape ha hc hvalid hshape
  have hold := hsame h a ha hc
  obtain ⟨shape', hshape'⟩ := (hs.placed h).mpr ⟨a, hold⟩
  have heq : shape' = shape := by
    have := he.placed h shape' hshape'
    rw [hshape] at this
    exact (Option.some.inj this).symm
  subst heq
  have hvalid' : s.registry.isInvalid h = false := by
    cases hi : s.registry.isInvalid h with
    | false => rfl
    | true =>
      rw [he.isInvalid hi] at hvalid
      cases hvalid
  exact (hf h a shape' hold hc hvalid' hshape').evolve he

theorem Explanation.evolve (hs : WellFormed s) (he : Evolves own s s') {h : Handle}
    {reason : String} (hpending : pending = [] ∨ Ring s pending)
    (hx : Explanation module pending s h reason) : Explanation module pending s' h reason := by
  cases hx with
  | pending hmem =>
    rcases hpending with rfl | hring
    · cases hmem
    · rw [← ringProblem_evolve hs.toLinked he module (hring.lt_count hs)]
      exact .pending hmem
  | ring ring hring hmem hreport =>
    rw [← ringProblem_evolve hs.toLinked he module (hring.lt_count hs)]
    refine .ring ring (hring.evolve hs.toLinked he) hmem ?_
    rw [ringReport_evolve hs.toLinked he module hring.1 (hring.lt_count hs)]
    exact he.diagnostics.subset hreport
  | layout fault => exact .layout fault

/-- A report that was a ring stays one. -/
theorem Explained.reports_evolve (hx : Explained module pending s) (hs : WellFormed s)
    (he : Evolves own s s') {d : Diagnostic} (hd : d ∈ s.diagnostics)
    (hk : d.kind = .valueCycle) : ∃ ring, Ring s' ring ∧
      (∀ h ∈ ring, s'.registry.isInvalid h = true) ∧ d = ringReport module s'.registry ring := by
  obtain ⟨ring, hring, hmarked, hreport⟩ := hx.reports d hd hk
  refine ⟨ring, hring.evolve hs.toLinked he, fun h hh => he.isInvalid (hmarked h hh), ?_⟩
  rw [ringReport_evolve hs.toLinked he module hring.1 (hring.lt_count hs), hreport]

theorem Explained.evolve (hx : Explained module pending s) (hs : WellFormed s)
    (he : Evolves own s s') (hinvalid : s'.registry.invalid = s.registry.invalid)
    (hdiagnostics : ∀ d ∈ s'.diagnostics, d.kind = .valueCycle → d ∈ s.diagnostics) :
    Explained module pending s' where
  unwound := hx.unwound.imp_right fun hr => hr.evolve hs.toLinked he
  marks := fun h reason hr => by
    rw [hinvalid] at hr
    exact (hx.marks h reason hr).evolve hs he hx.unwound
  reports := fun d hd hk => hx.reports_evolve hs he (hdiagnostics d hd hk) hk

/-! ## 3. Declaring -/

theorem Waiting.grow (hs : Sound module pending s) (hg : Grows s s') : Waiting s' := by
  obtain ⟨new, hholders, -, hnodup, hnew, hempty⟩ := hg.waiting
  have hback : ∀ h a, s'.graph.get h = .aggregate a → h ∈ new ∨ s.graph.get h = .aggregate a := by
    intro h a ha
    by_cases hlt : h < s.graph.count
    · exact Or.inr (hg.get h hlt ▸ ha)
    · exact Or.inl ((hnew h).mpr ⟨Nat.le_of_not_lt hlt, a, ha⟩)
  have hforth : ∀ h a, s.graph.get h = .aggregate a → s'.graph.get h = .aggregate a :=
    fun h a ha => by rw [hg.get h (Graph.lt_count_of_aggregate ha), ha]
  have hfresh : ∀ h ∈ new, IsGrowing s'.graph h := by
    intro h hh
    obtain ⟨-, a, ha⟩ := (hnew h).mp hh
    exact ⟨a, ha, (hempty h hh a ha).2.2⟩
  have hold : ∀ h ∈ s.placeholders ++ s.defining, h < s.graph.count := by
    intro h hh
    obtain ⟨a, ha, -⟩ := (hs.growing h).mpr hh
    exact Graph.lt_count_of_aggregate ha
  have hperm : (s.placeholders ++ s.defining ++ new).Perm (s'.placeholders ++ s'.defining) := by
    rw [hholders, hg.defining, List.append_assoc, List.append_assoc]
    exact List.perm_append_comm.append_left _
  refine ⟨hperm.nodup_iff.mp ?_, ?_, ?_, ?_, ?_⟩
  · refine List.nodup_append.mpr ⟨hs.nodup, hnodup, ?_⟩
    rintro h hh x hx rfl
    exact absurd (hold h hh) (Nat.not_lt.mpr ((hnew h).mp hx).1)
  · intro h
    rw [← hperm.mem_iff, List.mem_append, ← hs.growing h]
    constructor
    · rintro ⟨a, ha, hstage⟩
      rcases hback h a ha with hh | hh
      · exact Or.inr hh
      · exact Or.inl ⟨a, hh, hstage⟩
    · rintro (⟨a, ha, hstage⟩ | hh)
      · exact ⟨a, hforth h a ha, hstage⟩
      · exact hfresh h hh
  · intro h a ha
    rcases hback h a ha with hh | hh
    · exact Or.inl (hfresh h hh)
    · rcases hs.settled h a hh with ⟨b, hb, hstage⟩ | ⟨b, hb, hstage⟩
      · exact Or.inl ⟨b, hforth h b hb, hstage⟩
      · exact Or.inr ⟨b, hforth h b hb, hstage⟩
  · intro h hh a ha
    rw [hholders, List.mem_append] at hh
    rcases hh with hh | hh
    · refine hs.empty h hh a ?_
      rw [← ha, hg.get h (hold h (List.mem_append_left _ hh))]
    · exact ⟨(hempty h hh a ha).1, (hempty h hh a ha).2.1⟩
  · rw [hg.defining]
    exact hs.nested.imp fun _ _ hc => hc.evolve hs.toLinked (hg.evolves : Evolves [] s s')

theorem Grounded.grow (hs : Sound module pending s) (hg : Grows s s') :
    Grounded s'.graph := by
  obtain ⟨new, -, -, -, hnew, hempty⟩ := hg.waiting
  have he : Evolves [] s s' := hg.evolves
  have hold : ∀ y a, s'.graph.get y = .aggregate a → y ∉ new → y < s.graph.count := by
    intro y a ha hy
    by_cases hlt : y < s.graph.count
    · exact hlt
    · exact absurd ((hnew y).mpr ⟨Nat.le_of_not_lt hlt, a, ha⟩) hy
  refine ⟨?_, ?_⟩
  · rintro x y ⟨a, ha, p, hmem, rfl⟩ b hb
    -- a new aggregate has no parts
    have hy : y ∉ new := by
      intro hh
      obtain ⟨hbases, hfields, -⟩ := hempty y hh a ha
      rw [ha] at hmem
      simp [Instance.valueParts, hbases, hfields] at hmem
    have hsame := hg.get y (hold y a ha hy)
    rw [hsame] at hmem ha
    have hp := hs.parts y (p, true) (Instance.mem_parts_of_valueParts hmem)
    have hpart : IsPart s.graph (innermost s'.graph p) y :=
      ⟨a, ha, p, hmem, (he.innermost hs.toLinked hp).symm⟩
    rw [hg.get _ (hpart.lt_count hs.toLinked)] at hb
    exact hs.grounded.parts _ y hpart b hb
  · rintro h ⟨a, ha, hc⟩
    have hh : h ∉ new := by
      intro hh
      rw [(hempty h hh a ha).2.2] at hc
      cases hc
    refine hs.grounded.acc_of_evolves hs.toLinked he ⟨a, ?_, hc⟩
    rw [← ha, hg.get h (hold h a ha hh)]

/-- Declaring leaves all of it as it is. -/
theorem Sound.grow (hs : Sound module pending s) (hw : WellFormed s') (hg : Grows s s') :
    Sound module pending s' where
  toWellFormed := hw
  toWaiting := Waiting.grow hs hg
  grounded := Grounded.grow hs hg
  faithful := by
    refine hs.faithful.evolve hs.toWellFormed (hg.evolves : Evolves [] s s') ?_
    intro h a ha hc
    obtain ⟨new, -, -, -, hnew, hempty⟩ := hg.waiting
    by_cases hlt : h < s.graph.count
    · rw [← ha, hg.get h hlt]
    · have hstage := (hempty h ((hnew h).mpr ⟨Nat.le_of_not_lt hlt, a, ha⟩) a ha).2.2
      rw [hc] at hstage
      cases hstage
  explained := by
    refine hs.explained.evolve hs.toWellFormed (hg.evolves : Evolves [] s s') hg.invalid ?_
    intro d hd hk
    obtain ⟨ds, hds, hkinds⟩ := hg.diagnostics
    rw [hds, List.mem_append] at hd
    rcases hd with hd | hd
    · exact hd
    · rcases hkinds d hd with h | h
      · rw [hk] at h
        cases h
      · rw [hk] at h
        cases h

end NativeTypes.Resolver
