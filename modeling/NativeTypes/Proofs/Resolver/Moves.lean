/-
NativeTypes.Proofs.Resolver.Moves — the single moves of defining keep what
holds (`Sound`).

* `entered` — an aggregate is taken up: it stops waiting and is being defined.
* `assigned` — an aggregate that is being defined takes a part.
* `marked` — an instance is marked invalid, and something may be reported.
* `closed` — the innermost aggregate being defined ends as it is.

The define phase is put together of these four and of declarations. Each move
is a function on states, so that what it does can be said without the function
that makes it; there is a lemma for what it keeps (`Sound.entered` and so on)
and one for what it changes at most (`evolves_entered` and so on). The
functions of the define phase are then shown to be moves, and nothing of
`Sound` is opened there again.

Which part of `Sound` is in danger differs from move to move. Taking an
aggregate up needs that the aggregate being defined so far contains it, because
the stack of definitions is a chain of containment. Taking a part needs that
what is embedded is complete already; otherwise a complete aggregate could
embed one that is not. A mark has to be explained (`Explained`): by a ring that
is being unwound or was reported, or by parts that do not fit. And ending an
aggregate needs one of two reasons, that it is marked or that it follows its
shape to the end.
-/
import NativeTypes.Proofs.Resolver.Sound

namespace NativeTypes.Resolver

variable {σ : Type} {s : State σ} {module : String} {pending : List Handle}
  {own : List Handle}

/-! ## 1. Taking up an aggregate

The graph and the registry stay; only the lists of what waits and of what is being defined
change. -/

/-- The aggregate stops waiting and is being defined. -/
def entered (s : State σ) (h : Handle) : State σ :=
  { s with placeholders := s.placeholders.erase h, defining := s.defining ++ [h] }

/-- Nothing that is known of instances changes. -/
theorem evolves_entered (s : State σ) (h : Handle) : Evolves own s (entered s h) :=
  { Evolves.refl own s with
    placeholders := fun _ hx => Or.inl (List.mem_of_mem_erase hx) }

/-- The aggregate was waiting, so it is not being defined yet, and what is being defined contains
it. -/
theorem Sound.entered (hs : Sound module pending s) {h : Handle} (hh : h ∈ s.placeholders)
    (hlast : ∀ y ∈ s.defining.getLast?, Contains s y h) :
    Sound module pending (entered s h) := by
  have he : Evolves [] s (Resolver.entered s h) := evolves_entered s h
  have hperm : (s.placeholders ++ s.defining).Perm
      (s.placeholders.erase h ++ (s.defining ++ [h])) := by
    rw [← List.append_assoc]
    exact ((List.perm_cons_erase hh).append_right _).trans (List.perm_append_singleton h _).symm
  refine ⟨⟨⟨hs.coherent, hs.registered, hs.parts, hs.below, hs.keyBuilt, hs.declared⟩,
    hs.placed⟩, ⟨hperm.nodup_iff.mp hs.nodup, fun x => ?_, hs.settled, ?_, ?_⟩, hs.grounded,
    hs.faithful, hs.explained.evolve hs.toWellFormed he rfl fun _ hd _ => hd⟩
  · exact (hs.growing x).trans hperm.mem_iff
  · intro x hx
    exact hs.empty x (List.mem_of_mem_erase hx)
  · refine List.isChain_append.mpr ⟨hs.nested, List.isChain_singleton h, ?_⟩
    intro x hx y hy
    cases hy
    exact hlast x hx

/-! ## 2. Taking a part

One aggregate of the graph is replaced by another that has the same template and more parts. -/

/-- An aggregate is replaced by what it became. -/
def assigned (s : State σ) (h : Handle) (a : Aggregate) : State σ :=
  { s with graph := s.graph.set h (.aggregate a) }

section

variable {h : Handle} {a a' : Aggregate} (ha : s.graph.get h = .aggregate a)
include ha

variable (a') in
theorem get_assigned (x : Handle) : (assigned s h a').graph.get x =
    if x = h then .aggregate a' else s.graph.get x :=
  Graph.get_set (Graph.lt_count_of_aggregate ha) _ x

variable (a') in
/-- Only the aggregate itself changes, and it was not complete. -/
theorem evolves_assigned (hgrowing : a.stage ≠ .complete) :
    Evolves [h] s (assigned s h a') := by
  have hget := get_assigned a' ha
  refine { Evolves.refl [h] s with
    count := ?_, other := ?_, aggregate := ?_, complete := ?_, kept := ?_ }
  · rw [assigned, Graph.count_set]
  · intro x _ hx
    rw [hget, if_neg]
    rintro rfl
    exact hx a ha
  · intro x b hb
    rw [hget]
    split
    · exact ⟨a', rfl⟩
    · exact ⟨b, hb⟩
  · intro x b hb hc
    rw [hget, if_neg, hb]
    rintro rfl
    rw [ha] at hb
    cases hb
    exact hgrowing hc
  · intro x _ _ hx
    rw [hget, if_neg (by simpa using hx)]

/-- The tables stay linked if the new parts are in the graph. -/
theorem Linked.assigned (hs : Linked s) (hkind : a'.kindLost = a.kindLost)
    (hparts : ∀ p ∈ (Instance.aggregate a').parts, p.1 < s.graph.count) :
    Linked (assigned s h a') := by
  have hget := get_assigned a' ha
  have hcount : (Resolver.assigned s h a').graph.count = s.graph.count := Graph.count_set _ _ _
  refine ⟨hs.coherent, fun x => ?_, ?_, ?_, ?_, fun ref x hx => ?_⟩
  · rw [hcount]
    exact hs.registered x
  · intro x p hp
    rw [hcount]
    rw [hget] at hp
    split at hp
    · exact hparts p hp
    · exact hs.parts x p hp
  · intro x hx p hp
    rw [hget] at hp hx
    split at hp
    · rename_i he
      rw [if_pos he] at hx
      exact absurd rfl (hx a')
    · rename_i he
      rw [if_neg he] at hx
      exact hs.below x hx p hp
  · intro x key hk
    have hbuilt := hs.keyBuilt x key hk
    rw [hget]
    split
    · rename_i he
      rw [he, ha] at hbuilt
      exact hkind.trans hbuilt
    · exact hbuilt
  · rw [hcount]
    exact hs.declared ref x hx

variable (a') in
/-- What is placed is an aggregate before and after. -/
theorem WellFormed.assigned (hs : WellFormed s) (hkind : a'.kindLost = a.kindLost)
    (hparts : ∀ p ∈ (Instance.aggregate a').parts, p.1 < s.graph.count) :
    WellFormed (assigned s h a') := by
  refine ⟨hs.toLinked.assigned ha hkind hparts, fun x => (hs.placed x).trans ?_⟩
  rw [get_assigned a' ha]
  split
  · rename_i he
    exact ⟨fun _ => ⟨a', rfl⟩, fun _ => ⟨a, he ▸ ha⟩⟩
  · exact Iff.rfl

/-- An aggregate that is being defined takes one part `t`, which is complete as far as it is
embedded. -/
theorem Sound.assigned (hs : Sound module pending s) (hmem : h ∈ s.defining)
    (hstage : a'.stage = .growing) (hkind : a'.kindLost = a.kindLost) {t : Handle}
    (ht : t < s.graph.count)
    (hparts : ∀ p ∈ (Instance.aggregate a').parts,
      p ∈ (Instance.aggregate a).parts ∨ p = (t, true))
    (hcomplete : ∀ b, s.graph.get (innermost s.graph t) = .aggregate b → b.stage = .complete) :
    Sound module pending (assigned s h a') := by
  have hget := get_assigned a' ha
  have hgrowing : a.stage = .growing := by
    obtain ⟨b, hb, hb'⟩ := (hs.growing h).mpr (List.mem_append_right _ hmem)
    rw [ha] at hb
    cases hb
    exact hb'
  have hnot : a.stage ≠ .complete := by
    rw [hgrowing]
    decide
  have hnot' : a'.stage ≠ .complete := by
    rw [hstage]
    decide
  have he := evolves_assigned a' ha hnot
  have hlt : ∀ p ∈ (Instance.aggregate a').parts, p.1 < s.graph.count := by
    intro p hp
    rcases hparts p hp with hold | rfl
    · exact hs.parts h p (by rwa [ha])
    · exact ht
  have hw := hs.toWellFormed.assigned a' ha hkind hlt
  have hback : ∀ x b, (Resolver.assigned s h a').graph.get x = .aggregate b →
      b.stage = .complete → s.graph.get x = .aggregate b := by
    intro x b hb hc
    rw [hget] at hb
    split at hb
    · cases hb
      exact absurd hc hnot'
    · exact hb
  have hparts_complete : ∀ y b, (Resolver.assigned s h a').graph.get y = .aggregate b →
      ∀ p ∈ ((Resolver.assigned s h a').graph.get y).valueParts, ∀ c,
        s.graph.get (innermost s.graph p) = .aggregate c → c.stage = .complete := by
    intro y b hb p hp c hc
    rw [hget] at hp hb
    split at hp
    · rcases hparts _ (Instance.mem_parts_of_valueParts hp) with hold | hnew
      · have hold' : p ∈ (s.graph.get h).valueParts := by
          rw [ha]
          simpa [Instance.mem_parts_iff] using hold
        exact hs.grounded.parts _ h ⟨a, ha, p, hold', rfl⟩ c hc
      · cases hnew
        exact hcomplete c hc
    · rename_i hy
      rw [if_neg hy] at hb
      exact hs.grounded.parts _ y ⟨b, hb, p, hp, rfl⟩ c hc
  refine ⟨hw, ⟨hs.nodup, fun x => ?_, fun x b hb => ?_, fun x hx b hb => ?_, ?_⟩, ⟨?_, ?_⟩,
    hs.faithful.evolve hs.toWellFormed he hback,
    hs.explained.evolve hs.toWellFormed he rfl fun _ hd _ => hd⟩
  · refine Iff.trans ?_ (hs.growing x)
    unfold IsGrowing
    rw [hget]
    split
    · rename_i hx
      subst hx
      exact ⟨fun _ => ⟨a, ha, hgrowing⟩, fun _ => ⟨a', rfl, hstage⟩⟩
    · exact Iff.rfl
  · rw [hget] at hb
    split at hb
    · rename_i hx
      refine Or.inl ⟨a', ?_, hstage⟩
      rw [hget, if_pos hx]
    · rename_i hx
      unfold IsGrowing IsComplete
      rw [hget, if_neg hx]
      exact hs.settled x b hb
  · -- what waits is not being defined
    have hx' : x ≠ h := by
      rintro rfl
      exact (List.nodup_append.mp hs.nodup).2.2 x hx x hmem rfl
    rw [hget, if_neg hx'] at hb
    exact hs.empty x hx b hb
  · exact hs.nested.imp fun _ _ hc => hc.evolve hs.toLinked he
  · rintro x y ⟨b, hb, p, hp, rfl⟩ c hc
    have hplt := hw.parts y (p, true) (Instance.mem_parts_of_valueParts hp)
    rw [Resolver.assigned, Graph.count_set] at hplt
    rw [he.innermost hs.toLinked hplt, hget] at hc
    have hdone := hparts_complete y b hb p hp
    split at hc
    · -- what takes the part is not complete, so it is no part itself
      rename_i hxh
      exact absurd (hdone a (hxh ▸ ha)) hnot
    · exact hdone c hc
  · rintro x ⟨b, hb, hc⟩
    exact hs.grounded.acc_of_evolves hs.toLinked he ⟨b, hback x b hb hc, hc⟩

end

/-! ## 3. Marking

A mark is a table entry; the graph stays. So everything of `Sound` but the explanations is what
it was. -/

/-- An instance is marked, and something may be reported. -/
def marked (s : State σ) (h : Handle) (reason : String) (ds : List Diagnostic) : State σ :=
  { s with registry := s.registry.markInvalid h reason, diagnostics := s.diagnostics ++ ds }

variable {h : Handle} {reason : String} {ds : List Diagnostic}

variable (own ds) in
/-- A mark that is there already stays as it is. -/
theorem evolves_marked : Evolves own s (marked s h reason ds) := by
  refine Evolves.of_marks rfl (fun _ => rfl) ?_ (List.prefix_append _ _) rfl rfl rfl rfl rfl
  intro x r hr
  show (s.registry.markInvalid h reason).invalid.get? x = some r
  rw [Registry.get?_markInvalid]
  split
  · rename_i he
    subst he
    rw [hr, Option.getD_some]
  · exact hr

variable (ds) in
theorem isInvalid_marked : (marked s h reason ds).registry.isInvalid h = true := by
  refine (Registry.isInvalid_iff _ _).mpr ⟨(s.registry.invalid.get? h).getD reason, ?_⟩
  show (s.registry.markInvalid h reason).invalid.get? h = _
  rw [Registry.get?_markInvalid, if_pos rfl]

/-- Only one mark is new. -/
theorem get?_invalid_marked {x : Handle} {r : String}
    (hr : (marked s h reason ds).registry.invalid.get? x = some r) :
    s.registry.invalid.get? x = some r ∨ x = h ∧ r = reason := by
  replace hr : (s.registry.markInvalid h reason).invalid.get? x = some r := hr
  rw [Registry.get?_markInvalid] at hr
  split at hr
  · rename_i he
    subst he
    cases hold : s.registry.invalid.get? h with
    | none =>
      rw [hold] at hr
      cases hr
      exact Or.inr ⟨rfl, rfl⟩
    | some r' =>
      rw [hold] at hr
      exact Or.inl hr
  · exact Or.inl hr

/-- Marks are no keys. -/
theorem WellFormed.marked (hs : WellFormed s) : WellFormed (marked s h reason ds) :=
  ⟨⟨hs.coherent.markInvalid h reason, hs.registered, hs.parts, hs.below, hs.keyBuilt, hs.declared⟩,
    hs.placed⟩

/-- What has to be shown of a mark is why it is there. -/
theorem Sound.marked {pending' : List Handle} (hs : Sound module pending s)
    (hx : Explained module pending' (marked s h reason ds)) :
    Sound module pending' (marked s h reason ds) :=
  ⟨hs.toWellFormed.marked, ⟨hs.nodup, hs.growing, hs.settled, hs.empty, hs.nested⟩, hs.grounded,
    hs.faithful.evolve hs.toWellFormed (evolves_marked [] _) fun _ _ ha _ => ha, hx⟩

section

variable (hs : WellFormed s) (hx : Explained module pending s)
include hs hx

/-- A member of the ring that is unwound is marked for it. -/
theorem Explained.passed (hmem : h ∈ pending) :
    Explained module pending (marked s h (ringProblem module s.registry pending).message []) where
  unwound := hx.unwound.imp_right fun hr =>
    hr.evolve hs.toLinked (evolves_marked [] _)
  marks := fun x r hr => by
    rcases get?_invalid_marked hr with hold | ⟨rfl, rfl⟩
    · exact (hx.marks x r hold).evolve hs (evolves_marked [] _) hx.unwound
    · exact .pending hmem
  reports := fun d hd hk => by
    refine hx.reports_evolve hs (evolves_marked [] _) ?_ hk
    simpa [Resolver.marked] using hd

/-- The last member of the ring that is unwound is marked, and the ring is reported. -/
theorem Explained.reported (hring : Ring s pending) (hmem : h ∈ pending)
    (hmarked : ∀ x ∈ pending, x ≠ h → s.registry.isInvalid x = true) :
    Explained module [] (marked s h (ringProblem module s.registry pending).message
      [ringReport module s.registry pending]) where
  unwound := Or.inl rfl
  marks := fun x r hr => by
    have hring' : Ring (Resolver.marked s h (ringProblem module s.registry pending).message
        [ringReport module s.registry pending]) pending :=
      hring.evolve hs.toLinked (evolves_marked [] _)
    have hnew : ∀ y ∈ pending, Explanation module []
        (Resolver.marked s h (ringProblem module s.registry pending).message
          [ringReport module s.registry pending]) y
        (ringProblem module s.registry pending).message := fun y hy =>
      .ring pending hring' hy (List.mem_append_right _ (List.mem_singleton_self _))
    rcases get?_invalid_marked hr with hold | ⟨rfl, rfl⟩
    · cases hx.marks x r hold with
      | pending hy => exact hnew x hy
      | ring other hother hy hreport =>
        exact (Explanation.ring other hother hy hreport : Explanation module [] s x _).evolve
          hs (evolves_marked [] _) (Or.inl rfl)
      | layout fault => exact .layout fault
    · exact hnew x hmem
  reports := fun d hd hk => by
    have hd : d ∈ s.diagnostics ++ [ringReport module s.registry pending] := hd
    rcases List.mem_append.mp hd with hd | hd
    · exact hx.reports_evolve hs (evolves_marked [] _) hd hk
    · refine ⟨pending, hring.evolve hs.toLinked (evolves_marked [] _), fun x hxm => ?_,
        List.mem_singleton.mp hd⟩
      by_cases he : x = h
      · exact he ▸ isInvalid_marked _
      · exact (evolves_marked [] _).isInvalid (hmarked x hxm he)

/-- An aggregate whose parts do not fit is marked and reported. -/
theorem Explained.faulted (fault : LayoutFault) (hd : ∀ d ∈ ds, d.kind ≠ .valueCycle) :
    Explained module pending (marked s h fault.message ds) where
  unwound := hx.unwound.imp_right fun hr =>
    hr.evolve hs.toLinked (evolves_marked [] _)
  marks := fun x r hr => by
    rcases get?_invalid_marked hr with hold | ⟨-, rfl⟩
    · exact (hx.marks x r hold).evolve hs (evolves_marked [] _) hx.unwound
    · exact .layout fault
  reports := fun d hmem hk => by
    have hmem : d ∈ s.diagnostics ++ ds := hmem
    rcases List.mem_append.mp hmem with hmem | hmem
    · exact hx.reports_evolve hs (evolves_marked [] _) hmem hk
    · exact absurd hk (hd d hmem)

end

/-! ## 4. Ending

The innermost aggregate leaves the stack and is complete from then on. This is the move at which
what the phase promises is made good: what is complete embeds only what is complete, and follows
its shape unless it is marked. -/

/-- The innermost aggregate being defined ends as it is. -/
def closed (s : State σ) (h : Handle) : State σ :=
  { s with graph := s.graph.finalize h, defining := s.defining.dropLast }

section

variable {a : Aggregate} (ha : s.graph.get h = .aggregate a) (hgrowing : a.stage = .growing)
include ha hgrowing

theorem get_closed (x : Handle) : (closed s h).graph.get x =
    if x = h then .aggregate { a with stage := .complete } else s.graph.get x :=
  Graph.get_finalize ha (by simp [Aggregate.isFinalized, hgrowing]) x

theorem isComplete_closed : IsComplete (closed s h).graph h :=
  ⟨{ a with stage := .complete }, by rw [get_closed ha hgrowing, if_pos rfl], rfl⟩

/-- Ending is a change of the stage, which is a part being taken as far as the tables go, and
leaving the stack. -/
theorem closed_eq : closed s h =
    { assigned s h { a with stage := .complete } with defining := s.defining.dropLast } := by
  unfold closed assigned
  rw [Graph.finalize_of_growing ha (by simp [Aggregate.isFinalized, hgrowing])]

/-- Only the aggregate itself changes. -/
theorem evolves_closed : Evolves [h] s (closed s h) := by
  rw [closed_eq ha hgrowing]
  have he := evolves_assigned { a with stage := .complete } ha (by simp [hgrowing])
  exact { he with }

theorem WellFormed.closed (hs : WellFormed s) : WellFormed (closed s h) := by
  rw [closed_eq ha hgrowing]
  have hw := hs.assigned { a with stage := .complete } ha rfl
    (fun p hp => hs.parts h p (by rw [ha]; exact hp))
  exact ⟨⟨hw.coherent, hw.registered, hw.parts, hw.below, hw.keyBuilt, hw.declared⟩, hw.placed⟩

/-- An aggregate may end once it follows its shape, or when it is marked. -/
theorem Sound.closed (hs : Sound module pending s) (hlast : s.defining.getLast? = some h)
    (hdone : s.registry.isInvalid h = true ∨
      ∀ shape, s.placed.get? h = some shape → Follows s shape a) :
    Sound module pending (closed s h) := by
  have he := evolves_closed ha hgrowing
  have hget := get_closed ha hgrowing
  have hsplit : s.defining = s.defining.dropLast ++ [h] :=
    (List.dropLast_append_getLast? h hlast).symm
  have hperm : (s.placeholders ++ s.defining).Perm
      (h :: (s.placeholders ++ (Resolver.closed s h).defining)) := by
    rw [hsplit, ← List.append_assoc]
    exact List.perm_append_singleton h _
  have hnodup := hperm.nodup_iff.mp hs.nodup
  have hother : ∀ x b, x ≠ h → (Resolver.closed s h).graph.get x = .aggregate b →
      s.graph.get x = .aggregate b := by
    intro x b hx hb
    rwa [hget, if_neg hx] at hb
  have hw := hs.toWellFormed.closed ha hgrowing
  have hback : ∀ x, x ≠ h → (IsGrowing (Resolver.closed s h).graph x ↔ IsGrowing s.graph x) := by
    intro x hx
    unfold IsGrowing
    rw [hget, if_neg hx]
  have hend := isComplete_closed ha hgrowing
  have hparts_complete : ∀ y b, (Resolver.closed s h).graph.get y = .aggregate b →
      ∀ p ∈ ((Resolver.closed s h).graph.get y).valueParts,
        IsPart s.graph (innermost s.graph p) y ∧ p < s.graph.count := by
    intro y b hb p hp
    have hplt := hw.parts y (p, true) (Instance.mem_parts_of_valueParts hp)
    rw [Resolver.closed, Graph.count_finalize] at hplt
    rw [hget] at hp
    split at hp
    · rename_i hy
      subst hy
      refine ⟨⟨a, ha, p, ?_, rfl⟩, hplt⟩
      rw [ha]
      exact hp
    · rename_i hy
      exact ⟨⟨b, hother y b hy hb, p, hp, rfl⟩, hplt⟩
  have hparts : ∀ x y, IsPart (Resolver.closed s h).graph x y → IsPart s.graph x y := by
    rintro x y ⟨b, hb, p, hp, rfl⟩
    obtain ⟨hpart, hplt⟩ := hparts_complete y b hb p hp
    rwa [he.innermost hs.toLinked hplt]
  refine ⟨hw, ⟨(List.nodup_cons.mp hnodup).2, fun x => ?_, fun x b hb => ?_, fun x hx b hb => ?_,
    ?_⟩, ⟨?_, ?_⟩, ?_, ?_⟩
  · by_cases hx : x = h
    · subst hx
      exact ⟨fun hg => absurd hg hend.not_growing,
        fun hm => absurd hm (List.nodup_cons.mp hnodup).1⟩
    · rw [hback x hx, hs.growing x, hperm.mem_iff, List.mem_cons]
      exact or_iff_right hx
  · by_cases hx : x = h
    · subst hx
      exact Or.inr hend
    · rw [hback x hx]
      refine (hs.settled x b (hother x b hx hb)).imp_right ?_
      rintro ⟨c, hc, hstage⟩
      exact ⟨c, by rw [hget, if_neg hx, hc], hstage⟩
  · -- what waits was not being defined
    have hx' : x ≠ h := by
      rintro rfl
      exact (List.nodup_cons.mp hnodup).1 (List.mem_append_left _ hx)
    exact hs.empty x hx b (hother x b hx' hb)
  · have hchain := hs.nested
    rw [hsplit] at hchain
    exact (List.isChain_append.mp hchain).1.imp fun _ _ hc => hc.evolve hs.toLinked he
  · intro x y hp b hb
    by_cases hx : x = h
    · rw [hget, if_pos hx] at hb
      cases hb
      rfl
    · exact hs.grounded.parts x y (hparts x y hp) b (hother x b hx hb)
  · rintro x ⟨b, hb, hc⟩
    by_cases hx : x = h
    · -- its parts were complete before
      subst hx
      refine Acc.intro x fun z hz => ?_
      have hold := hparts z x hz
      cases hgetz : s.graph.get z with
      | aggregate c =>
        exact hs.grounded.acc_of_evolves hs.toLinked he
          ⟨c, hgetz, hs.grounded.parts z x hold c hgetz⟩
      | _ =>
        refine acc_of_not_aggregate fun c hc => ?_
        rw [he.other z (hold.lt_count hs.toLinked) (by simp [hgetz]), hgetz] at hc
        cases hc
    · exact hs.grounded.acc_of_evolves hs.toLinked he ⟨b, hother x b hx hb, hc⟩
  · intro x b shape hb hc hvalid hshape
    by_cases hx : x = h
    · subst hx
      rw [hget, if_pos rfl] at hb
      cases hb
      rcases hdone with hmark | hfollows
      · have hvalid : s.registry.isInvalid x = false := hvalid
        rw [hmark] at hvalid
        cases hvalid
      · exact hfollows shape hshape
    · exact hs.faithful x b shape (hother x b hx hb) hc hvalid hshape
  · exact hs.explained.evolve hs.toWellFormed he rfl fun _ hd _ => hd

end

end NativeTypes.Resolver
