/-
NativeTypes.Proofs.Resolver.Progress — how far each aggregate got, and what it
stands before.

An aggregate has the first parts of its shape, and as long as it has not all of
them it stands before the next one. If that one embeds an aggregate, the former
`Stands` before the latter.

* `Ended` — an aggregate takes no more parts: it is complete, or lies on the
  cycle that is being unwound.
* `Ranked` — every aggregate has a rank, the moment when it was done. What an
  aggregate took on is complete and of lower rank. An aggregate that ended
  short stands on a ring of such aggregates, which were done together.
* `IsMet` — nothing is registered that was not asked for: the key of every
  instance lies in one that a root spells, or a part of an older aggregate.

Only taking a part changes the ranks: whatever is not complete is then done
later. All else that happens to a state leaves what has ended as it was, and
the rings with it (`Rings.evolve`).

The ranks are not the order in which aggregates became complete. The members of
a cycle become complete one after the other while it is unwound, from the
innermost outwards, but none of them took anything in between; they get one
rank. While this goes on, the members that are not complete yet count as ended:
that is the list `L`, and it is empty wherever no cycle is being unwound.

No ranks are stored in a state. They exist by induction along the run
(`Tracked`), together with the facts about keys that say which parts are of the
same types in another resolver.
-/
import NativeTypes.Proofs.Resolver.Alike
import NativeTypes.Proofs.Resolver.Unfinished

namespace NativeTypes

/-! ## 1. Parts that were taken -/

namespace Aggregate

/-- How many parts the aggregate took. -/
def taken (a : Aggregate) : Nat := a.bases.length + a.fields.length

/-- The aggregate as it was before it took any part. -/
def bare (a : Aggregate) : Aggregate := { a with bases := [], fields := [] }

end Aggregate

/-- One part more was taken. -/
@[simp] theorem PartShape.taken_add (t : Handle) (p : PartShape) (a : Aggregate) :
    (p.add t a).taken = a.taken + 1 := by
  cases p with
  | base b =>
    simp only [add, Aggregate.taken, List.length_append, List.length_singleton]
    omega
  | field f =>
    simp only [add, Aggregate.taken, List.length_append, List.length_singleton]
    omega

@[simp] theorem PartShape.bare_add (t : Handle) (p : PartShape) (a : Aggregate) :
    (p.add t a).bare = a.bare := by
  cases p <;> rfl

@[simp] theorem PartShape.blank_add (t : Handle) (p : PartShape) (a : Aggregate) :
    (p.add t a).blank = a.blank := by
  cases p <;> rfl

theorem PartShape.add_stage (t : Handle) (p : PartShape) (a : Aggregate) (stage : Stage) :
    p.add t { a with stage } = { p.add t a with stage } := by
  cases p <;> rfl

namespace Resolver

variable {σ : Type} {describe : Description} {valid : σ → Prop} {size : Int} {s s' t : State σ}
  {own L L' : List Handle} {rank rank' : Handle → Nat} {now : Nat} {x y z h owner : Handle}
  {shape : Shape} {a b : Aggregate} {p : PartShape} {ps : List PartShape}

namespace Took

/-- Ending does not change what was taken. -/
theorem restage (h : Took s ps a b) (stage : Stage) :
    Took s ps { a with stage } { b with stage } := by
  induction h with
  | nil => exact .nil
  | cons ht _ ih => exact .cons ht (by rwa [PartShape.add_stage])

/-- The parts that were there before stay. -/
theorem valueParts (h : Took s ps a b) (hx : x ∈ (Instance.aggregate a).valueParts) :
    x ∈ (Instance.aggregate b).valueParts := by
  induction h with
  | nil => exact hx
  | cons _ _ ih => exact ih ((PartShape.mem_valueParts_add _ _ _ _).mpr (.inl hx))

/-- Every part that was taken is there. -/
theorem exists_of_mem (h : Took s ps a b) (hp : p ∈ ps) :
    ∃ x, s.declared.get? p.ref = some x ∧ x ∈ (Instance.aggregate b).valueParts := by
  induction h with
  | nil => cases hp
  | @cons q _ x _ _ hx hrest ih =>
    rcases List.mem_cons.mp hp with rfl | hp
    · exact ⟨x, hx, hrest.valueParts ((PartShape.mem_valueParts_add _ _ _ _).mpr (.inr rfl))⟩
    · exact ih hp

end Took

/-! ## 2. Standing before a part -/

/-- The next part of `x` embeds the aggregate `y`. -/
def Stands (s : State σ) (x y : Handle) : Prop :=
  ∃ shape a p t b, s.placed.get? x = some shape ∧ s.graph.get x = .aggregate a ∧
    shape.parts[a.taken]? = some p ∧ s.declared.get? p.ref = some t ∧ innermost s.graph t = y ∧
    s.graph.get y = .aggregate b

/-- The aggregate has not all parts of its shape. -/
def Short (s : State σ) (x : Handle) : Prop :=
  ∃ shape a, s.placed.get? x = some shape ∧ s.graph.get x = .aggregate a ∧
    a.taken < shape.parts.length

/-- A part of the aggregate does not fit. -/
def Faulty (s : State σ) (x : Handle) : Prop :=
  ∃ a, s.graph.get x = .aggregate a ∧ (s.graph.layoutFault? a).isSome = true

/-- The aggregate takes no more parts: it is complete or on the cycle that is being unwound. -/
def Ended (s : State σ) (L : List Handle) (x : Handle) : Prop := IsComplete s.graph x ∨ x ∈ L

theorem ended_nil : Ended s [] x ↔ IsComplete s.graph x := or_iff_left List.not_mem_nil

/-- What an aggregate stands before is one aggregate. -/
theorem Stands.eq (h : Stands s x y) (h' : Stands s x z) : y = z := by
  obtain ⟨shape, a, p, t, -, hplaced, ha, hp, ht, rfl, -⟩ := h
  obtain ⟨shape', a', p', t', -, hplaced', ha', hp', ht', rfl, -⟩ := h'
  cases hplaced.symm.trans hplaced'
  cases ha.symm.trans ha'
  cases hp.symm.trans hp'
  cases ht.symm.trans ht'
  rfl

/-- Who stands before a part has not all of them. -/
theorem Stands.short (h : Stands s x y) : Short s x := by
  obtain ⟨shape, a, p, -, -, hplaced, ha, hp, -⟩ := h
  exact ⟨shape, a, hplaced, ha, (List.getElem?_eq_some_iff.mp hp).1⟩

/-- The aggregate is there still and has as many parts. -/
def Stays (s s' : State σ) (x : Handle) : Prop :=
  ∀ a, s.graph.get x = .aggregate a → ∃ a', s'.graph.get x = .aggregate a' ∧ a'.taken = a.taken

theorem Stays.of_get (h : s'.graph.get x = s.graph.get x) : Stays s s' x :=
  fun a ha => ⟨a, h.trans ha, rfl⟩

/-- Who stays stands where it stood. -/
theorem Stands.evolve (hs : Linked s) (he : Evolves own s s') (hstays : Stays s s' x)
    (h : Stands s x y) : Stands s' x y := by
  obtain ⟨shape, a, p, t, b, hplaced, ha, hp, ht, rfl, hb⟩ := h
  obtain ⟨a', ha', htaken⟩ := hstays a ha
  obtain ⟨b', hb'⟩ := he.aggregate _ b hb
  exact ⟨shape, a', p, t, b', he.placed _ _ hplaced, ha', htaken ▸ hp, he.declared _ _ ht,
    he.innermost hs (hs.declared _ _ ht), hb'⟩

/-- And is as short as it was. -/
theorem Short.evolve (he : Evolves own s s') (hstays : Stays s s' x) (h : Short s x) :
    Short s' x := by
  obtain ⟨shape, a, hplaced, ha, hlt⟩ := h
  obtain ⟨a', ha', htaken⟩ := hstays a ha
  exact ⟨shape, a', he.placed _ _ hplaced, ha', htaken ▸ hlt⟩

/-- Being short is about what was there before. -/
theorem Short.of_evolves (hs : WellFormed s) (he : Evolves own s s') (hstays : Stays s s' x)
    (ha : s.graph.get x = .aggregate a) (h : Short s' x) : Short s x := by
  obtain ⟨shape, a', hplaced, ha', hlt⟩ := h
  obtain ⟨other, hother⟩ := (hs.placed x).mpr ⟨a, ha⟩
  cases hplaced.symm.trans (he.placed _ _ hother)
  obtain ⟨b, hb, htaken⟩ := hstays a ha
  cases ha'.symm.trans hb
  exact ⟨shape, a, hother, ha, htaken ▸ hlt⟩

/-! ## 3. Ranks -/

/-- Who ended short stands on a ring of those who did, done at one moment. -/
structure Rings (s : State σ) (L : List Handle) (rank : Handle → Nat) : Prop where
  ring : ∀ x, Ended s L x → Short s x →
    Relation.TransGen (fun y z => Ended s L y ∧ Stands s y z) x x
  next : ∀ x y, Ended s L x → Stands s x y → Ended s L y ∧ rank y ≤ rank x

/-- What has ended stays, and nobody else ends short. -/
theorem Rings.evolve (h : Rings s L rank) (hs : Linked s) (he : Evolves own s s')
    (hstays : ∀ x, Ended s L x → Stays s s' x)
    (hended : ∀ x, Ended s L x → Ended s' L' x)
    (hback : ∀ x, Ended s' L' x → Short s' x → Ended s L x ∧ Short s x)
    (hrank : ∀ x, Ended s L x → rank' x = rank x) : Rings s' L' rank' where
  ring := fun x hx hshort => by
    obtain ⟨hold, hshort⟩ := hback x hx hshort
    refine Relation.TransGen.mono (fun y z hyz => ?_) x x (h.ring x hold hshort)
    exact ⟨hended y hyz.1, hyz.2.evolve hs he (hstays y hyz.1)⟩
  next := fun x y hx hy => by
    obtain ⟨hold, hshort⟩ := hback x hx hy.short
    -- the ring says what `x` stands before
    obtain ⟨z, ⟨-, hz⟩, -⟩ := Relation.TransGen.head'_iff.mp (h.ring x hold hshort)
    obtain rfl := hy.eq (hz.evolve hs he (hstays x hold))
    obtain ⟨hyended, hle⟩ := h.next x y hold hz
    exact ⟨hended y hyended, by rwa [hrank x hold, hrank y hyended]⟩

/-- Every aggregate has a rank: the moment when it was done, or now. -/
structure Ranked (s : State σ) (L : List Handle) (rank : Handle → Nat) (now : Nat) : Prop
    extends Rings s L rank where
  le : ∀ x, rank x ≤ now
  top : ∀ x, ¬IsComplete s.graph x → rank x = now
  part : ∀ x y b, IsPart s.graph y x → s.graph.get y = .aggregate b →
    IsComplete s.graph y ∧ rank y < rank x

/-! ## 4. Nothing takes parts

Most steps of a resolver change no list of parts. For all of these at once: what stood stands,
what was short is short, and the ranks are kept. -/

/-- Nothing takes parts: what is there may end, and what is new is empty. -/
structure Carries (own : List Handle) (s s' : State σ) : Prop extends Evolves own s s' where
  old : ∀ x a, s.graph.get x = .aggregate a → ∃ stage, s'.graph.get x = .aggregate { a with stage }
  new : ∀ x a, s'.graph.get x = .aggregate a → (∃ b, s.graph.get x = .aggregate b) ∨ IsEmpty a

theorem Evolves.carries (he : Evolves own s s') (hgraph : s'.graph = s.graph) : Carries own s s' :=
  { he with
    old := fun x a ha => ⟨a.stage, by rw [hgraph, ha]⟩
    new := fun x a ha => .inl ⟨a, hgraph ▸ ha⟩ }

theorem Grows.carries (h : Grows s s') : Carries own s s' :=
  { h.evolves with
    old := fun x a ha => ⟨a.stage, by rw [h.get x (Graph.lt_count_of_aggregate ha), ha]⟩
    new := fun x a ha => by
      by_cases hlt : x < s.graph.count
      · exact .inl ⟨a, h.get x hlt ▸ ha⟩
      · obtain ⟨new, -, -, -, hnew, hempty⟩ := h.waiting
        exact .inr (hempty x ((hnew x).mpr ⟨Nat.le_of_not_lt hlt, a, ha⟩) a ha) }

/-- What is not there yet is no aggregate. -/
theorem Evolves.isAggregate (he : Evolves own s s') (hx : x < s.graph.count)
    (ha : s'.graph.get x = .aggregate a) : ∃ b, s.graph.get x = .aggregate b := by
  cases hget : s.graph.get x with
  | aggregate b => exact ⟨b, rfl⟩
  | _ =>
    rw [he.other x hx (by simp [hget]), hget] at ha
    cases ha

namespace Carries

/-- Every aggregate stays. -/
theorem stays (hc : Carries own s s') (x : Handle) : Stays s s' x := by
  intro a ha
  obtain ⟨stage, hx⟩ := hc.old x a ha
  exact ⟨_, hx, rfl⟩

/-- What is complete was there before. -/
theorem exists_old (hc : Carries own s s') (hx : IsComplete s'.graph x) :
    ∃ a, s.graph.get x = .aggregate a := by
  obtain ⟨a, ha, hstage⟩ := hx
  refine (hc.new x a ha).resolve_right fun hempty => ?_
  rw [hempty.2.2] at hstage
  cases hstage

/-- What is embedded was embedded before. -/
theorem isPart (hc : Carries own s s') (hs : Linked s) (h : IsPart s'.graph y x) :
    IsPart s.graph y x := by
  obtain ⟨a, ha, q, hq, rfl⟩ := h
  rw [ha] at hq
  rcases hc.new x a ha with ⟨b, hb⟩ | hempty
  · obtain ⟨stage, hx⟩ := hc.old x b hb
    cases ha.symm.trans hx
    have hmem : q ∈ (s.graph.get x).valueParts := by
      rw [hb]
      exact hq
    exact ⟨b, hb, q, hmem, (hc.innermost hs
      (hs.parts x (q, true) (Instance.mem_parts_of_valueParts hmem))).symm⟩
  · rw [Instance.valueParts, hempty.1, hempty.2.1] at hq
    cases hq

/-- The ranks are the same. -/
theorem ranked (hc : Carries own s s') (hs : WellFormed s) (h : Ranked s L rank now)
    (hended : ∀ x, Ended s L x → Ended s' L' x)
    (hback : ∀ x, Ended s' L' x → Short s x → Ended s L x) (hshort : ∀ x ∈ L', Short s x) :
    Ranked s' L' rank now where
  toRings := by
    refine h.evolve hs.toLinked hc.toEvolves (fun x _ => hc.stays x) hended ?_ fun _ _ => rfl
    intro x hx hx'
    have hold : ∃ a, s.graph.get x = .aggregate a := by
      rcases hx with hcomplete | hmem
      · exact hc.exists_old hcomplete
      · obtain ⟨-, a, -, ha, -⟩ := hshort x hmem
        exact ⟨a, ha⟩
    obtain ⟨a, ha⟩ := hold
    have hold := hx'.of_evolves hs hc.toEvolves (hc.stays x) ha
    exact ⟨hback x hx hold, hold⟩
  le := h.le
  top := fun x hx => h.top x fun ⟨a, ha, hstage⟩ => hx ⟨a, hc.complete x a ha hstage, hstage⟩
  part := fun x y b hy hb => by
    have hpart := hc.isPart hs.toLinked hy
    obtain ⟨c, hcget⟩ := hc.isAggregate (hpart.lt_count hs.toLinked) hb
    obtain ⟨⟨d, hd, hstage⟩, hlt⟩ := h.part x y c hpart hcget
    exact ⟨⟨d, hc.complete y d hd hstage, hstage⟩, hlt⟩

end Carries

/-- Whether parts fit does not change. -/
theorem isSome_layoutFault?_of_evolves (hp : PlainDescription describe)
    (hs : Plain describe valid size s) (hs' : Plain describe valid size s') (hw : WellFormed s)
    (hw' : WellFormed s') (he : Evolves own s s') (ha : s.graph.get x = .aggregate a)
    (hsize : a.size = b.size) (hbases : a.bases = b.bases) (hfields : a.fields = b.fields) :
    (s.graph.layoutFault? a).isSome = (s'.graph.layoutFault? b).isSome := by
  have halike : ∀ y ∈ (Instance.aggregate a).valueParts, Alike s s' y y := by
    intro y hy
    rw [← ha] at hy
    obtain ⟨key, hkey⟩ :=
      hw.exists_key (hw.parts x (y, true) (Instance.mem_parts_of_valueParts hy))
    exact ⟨key, hkey, he.keyOf? hkey⟩
  refine isSome_layoutFault? hp hs hs' hw hw' hsize ?_ ?_
  · rw [← hbases]
    refine List.forall₂_same.mpr fun q hq => ⟨halike q.type ?_, rfl, rfl⟩
    exact List.mem_append_left _ (List.mem_map.mpr ⟨q, hq, rfl⟩)
  · rw [← hfields]
    refine List.forall₂_same.mpr fun q hq => ⟨halike q.type ?_, rfl, rfl, rfl, rfl, rfl⟩
    exact List.mem_append_right _ (List.mem_map.mpr ⟨q, hq, rfl⟩)

/-! ## 5. What is kept

The whole invariant, along the steps of the define phase: a declaration, taking an aggregate up,
taking a part, closing a ring, and the end of an aggregate. -/

/-- A part of the aggregate, up to the one that it stands before, spells this key. -/
def Mentions (describe : Description) (s : State σ) (u : Handle) (key : Key) : Prop :=
  ∃ shape a i p text, s.placed.get? u = some shape ∧ s.graph.get u = .aggregate a ∧
    i ≤ a.taken ∧ shape.parts[i]? = some p ∧ p.ref = .name text ∧ SpellsKey describe text key

theorem Mentions.evolve {key : Key} (h : Mentions describe s x key) (he : Evolves own s s')
    (hle : ∀ a, s.graph.get x = .aggregate a →
      ∃ a', s'.graph.get x = .aggregate a' ∧ a.taken ≤ a'.taken) : Mentions describe s' x key := by
  obtain ⟨shape, a, i, p, text, hplaced, ha, hi, hp⟩ := h
  obtain ⟨a', ha', htaken⟩ := hle a ha
  exact ⟨shape, a', i, p, text, he.placed _ _ hplaced, ha', Nat.le_trans hi htaken, hp⟩

/-- The key lies in one that is asked for, or in one that an older aggregate mentions. -/
def IsMet (describe : Description) (asked : Key → Prop) (s : State σ) (x : Handle) (key : Key) :
    Prop :=
  ∃ whole, key.Within whole ∧ (asked whole ∨ ∃ u, u < x ∧ Mentions describe s u whole)

theorem IsMet.evolve {asked : Key → Prop} {key : Key} (h : IsMet describe asked s x key)
    (he : Evolves own s s')
    (hle : ∀ u a, s.graph.get u = .aggregate a →
      ∃ a', s'.graph.get u = .aggregate a' ∧ a.taken ≤ a'.taken) :
    IsMet describe asked s' x key := by
  obtain ⟨whole, hwithin, hmet⟩ := h
  refine ⟨whole, hwithin, hmet.imp_right ?_⟩
  rintro ⟨u, hu, hmentions⟩
  exact ⟨u, hu, hmentions.evolve he (hle u)⟩

/-- How far the aggregates of a plain module got: they took the first parts of their shapes, and
are invalid if they ended short or their parts do not fit. All that is registered was met. -/
structure Tracked (describe : Description) (valid : σ → Prop) (size : Int) (asked : Key → Prop)
    (L : List Handle) (s : State σ) : Prop where
  plain : Plain describe valid size s
  partly : ∀ x a shape, s.graph.get x = .aggregate a → s.placed.get? x = some shape →
    a.taken ≤ shape.parts.length ∧ Took s (shape.parts.take a.taken) a.bare a
  ranked : ∃ rank now, Ranked s L rank now
  short : ∀ x ∈ L, Short s x
  marks : ∀ x, s.registry.isInvalid x = true ↔
    IsComplete s.graph x ∧ (Short s x ∨ Faulty s x)
  met : ∀ x key, s.registry.keyOf? x = some key → IsMet describe asked s x key

section

variable {asked : Key → Prop} (hp : PlainDescription describe)

include hp

/-- Nothing takes parts: what has ended is invalid where it was short or faulty before. -/
theorem Tracked.carry (h : Tracked describe valid size asked L s) (hw : WellFormed s)
    (hw' : WellFormed s') (hc : Carries own s s') (hplain : Plain describe valid size s')
    (hended : ∀ x, Ended s L x → Ended s' L' x)
    (hback : ∀ x, Ended s' L' x → Short s x → Ended s L x) (hshort : ∀ x ∈ L', Short s x)
    (hmarks : ∀ x, s'.registry.isInvalid x = true ↔
      IsComplete s'.graph x ∧ (Short s x ∨ Faulty s x))
    (hmet : ∀ x key, s.graph.count ≤ x → s'.registry.keyOf? x = some key →
      IsMet describe asked s' x key) :
    Tracked describe valid size asked L' s' where
  plain := hplain
  partly := fun x a shape ha hplaced => by
    rcases hc.new x a ha with ⟨b, hb⟩ | hempty
    · obtain ⟨stage, hx⟩ := hc.old x b hb
      cases ha.symm.trans hx
      obtain ⟨other, hother⟩ := (hw.placed x).mpr ⟨b, hb⟩
      cases hplaced.symm.trans (hc.placed _ _ hother)
      obtain ⟨hle, htook⟩ := h.partly x b shape hb hother
      exact ⟨hle, (htook.of_declared hc.declared).restage stage⟩
    · have hnone : a.taken = 0 := by rw [Aggregate.taken, hempty.1, hempty.2.1]; rfl
      have hbare : a.bare = a := by
        cases a
        simp only [IsEmpty] at hempty
        simp only [Aggregate.bare, hempty.1, hempty.2.1]
      rw [hnone, hbare, List.take_zero]
      exact ⟨Nat.zero_le _, .nil⟩
  ranked := by
    obtain ⟨rank, now, hr⟩ := h.ranked
    exact ⟨rank, now, hc.ranked hw hr hended hback hshort⟩
  short := fun x hx => (hshort x hx).evolve hc.toEvolves (hc.stays x)
  marks := fun x => by
    rw [hmarks]
    refine and_congr_right fun hcomplete => ?_
    obtain ⟨a, ha⟩ := hc.exists_old hcomplete
    obtain ⟨stage, ha'⟩ := hc.old x a ha
    refine or_congr ⟨fun hx => hx.evolve hc.toEvolves (hc.stays x),
      fun hx => hx.of_evolves hw hc.toEvolves (hc.stays x) ha⟩ ?_
    have hsame : (s.graph.layoutFault? a).isSome =
        (s'.graph.layoutFault? { a with stage }).isSome :=
      isSome_layoutFault?_of_evolves hp h.plain hplain hw hw' hc.toEvolves ha rfl rfl rfl
    constructor
    · rintro ⟨b, hb, hfault⟩
      cases ha.symm.trans hb
      exact ⟨_, ha', hsame ▸ hfault⟩
    · rintro ⟨b, hb, hfault⟩
      cases ha'.symm.trans hb
      exact ⟨a, ha, hsame.trans hfault⟩
  met := fun x key hkey => by
    by_cases hlt : x < s.graph.count
    · obtain ⟨old, hold⟩ := hw.exists_key hlt
      obtain rfl : old = key := Option.some.inj ((hc.keyOf? hold).symm.trans hkey)
      refine (h.met x old hold).evolve hc.toEvolves fun u c hget => ?_
      obtain ⟨c', hc', htaken⟩ := hc.stays u c hget
      exact ⟨c', hc', Nat.le_of_eq htaken.symm⟩
    · exact hmet x key (Nat.le_of_not_lt hlt) hkey

/-- A reference was declared that was asked for or that an aggregate stands before. -/
theorem Tracked.declared (h : Tracked describe valid size asked [] s) (hw : WellFormed s)
    (hw' : WellFormed s') (hg : Grows s s') {key : Key}
    (hgives : Gives describe valid size key s x s')
    (hmet : asked key ∨ ∃ u, Mentions describe s u key) :
    Tracked describe valid size asked [] s' := by
  have hc : Carries [] s s' := hg.carries
  have hcomplete : ∀ y, IsComplete s'.graph y ↔ IsComplete s.graph y := by
    intro y
    constructor
    · intro hy
      obtain ⟨b, hb⟩ := hc.exists_old hy
      rwa [IsComplete, hg.get y (Graph.lt_count_of_aggregate hb)] at hy
    · rintro ⟨b, hb, hstage⟩
      exact ⟨b, hc.complete y b hb hstage, hstage⟩
  refine h.carry hp hw hw' hc hgives.plain (fun y hy => hy.imp_left (hcomplete y).mpr)
    (fun y hy _ => hy.imp_left (hcomplete y).mp) nofun (fun y => ?_) fun y k hy hk => ?_
  · rw [hcomplete, ← h.marks, Registry.isInvalid, Registry.isInvalid, hg.invalid]
  · refine ⟨key, hgives.only y k hy hk, hmet.imp_right ?_⟩
    rintro ⟨u, hmentions⟩
    obtain ⟨-, c, -, -, -, -, hu, -⟩ := id hmentions
    exact ⟨u, Nat.lt_of_lt_of_le (Graph.lt_count_of_aggregate hu) hy,
      hmentions.evolve hc.toEvolves fun d hd =>
        ⟨d, (hg.get u (Graph.lt_count_of_aggregate hd)).trans hd, Nat.le_refl _⟩⟩

/-- An aggregate is taken up. -/
theorem Tracked.entered (h : Tracked describe valid size asked [] s) (hs : WellFormed s)
    (hs' : WellFormed (entered s owner)) :
    Tracked describe valid size asked [] (entered s owner) := by
  have hevolves : Evolves [] s (Resolver.entered s owner) := evolves_entered s owner
  refine h.carry hp hs hs' (hevolves.carries rfl) ?_
    (fun x hx => hx) (fun x hx _ => hx) nofun h.marks fun x key hx hkey => ?_
  · exact h.plain.reshape rfl rfl rfl (fun _ => rfl) rfl rfl fun _ => .inl rfl
  · exact absurd (hs.lt_count_of_keyOf? hkey) (Nat.not_lt.mpr hx)

omit hp in
theorem get_assigned_of_complete (ht : Taking s owner shape a) (hgrowing : a.stage = .growing)
    (b : Aggregate) (hx : IsComplete s.graph x) :
    (assigned s owner b).graph.get x = s.graph.get x := by
  rw [get_assigned b ht.get, if_neg]
  rintro rfl
  exact hx.not_growing ⟨a, ht.get, hgrowing⟩

omit hp in
/-- Taking a part makes nothing complete. -/
theorem isComplete_assigned (ht : Taking s owner shape a) (hgrowing : a.stage = .growing)
    (hb : b.stage = .growing) :
    IsComplete (assigned s owner b).graph x ↔ IsComplete s.graph x := by
  unfold IsComplete
  rw [get_assigned b ht.get]
  split
  · rename_i hx
    subst hx
    simp [ht.get, hgrowing, hb]
  · exact Iff.rfl

omit hp in
/-- What is embedded then was embedded before, or is what the new part embeds. -/
theorem isPart_assigned (hs : WellFormed s) (ht : Taking s owner shape a)
    (hgrowing : a.stage = .growing) (hx : x < s.graph.count)
    (h : IsPart (assigned s owner (p.add x a)).graph z y) :
    z < s.graph.count ∧ (IsPart s.graph z y ∨ y = owner ∧ innermost s.graph x = z) := by
  have hget := get_assigned (p.add x a) ht.get
  have he : Evolves [owner] s (assigned s owner (p.add x a)) :=
    evolves_assigned _ ht.get (by simp [hgrowing])
  have hinner {q : Handle} (hq : q < s.graph.count) :
      innermost (assigned s owner (p.add x a)).graph q < s.graph.count ∧
        innermost (assigned s owner (p.add x a)).graph q = innermost s.graph q := by
    rw [he.innermost hs.toLinked hq]
    exact ⟨Nat.lt_of_le_of_lt (innermost_le _ _) hq, rfl⟩
  have hold {q : Handle} (b : Aggregate) (hb : s.graph.get y = .aggregate b)
      (hq : q ∈ (Instance.aggregate b).valueParts) :
      q < s.graph.count ∧ IsPart s.graph (innermost s.graph q) y := by
    rw [← hb] at hq
    exact ⟨hs.parts y (q, true) (Instance.mem_parts_of_valueParts hq), b, hb, q, hq, rfl⟩
  obtain ⟨c, hc, q, hq, rfl⟩ := h
  rw [hc] at hq
  rw [hget] at hc
  split at hc
  · rename_i hy
    subst hy
    cases hc
    rcases (PartShape.mem_valueParts_add x p a q).mp hq with hq | rfl
    · obtain ⟨hlt, hpart⟩ := hold a ht.get hq
      exact ⟨(hinner hlt).1, .inl ((hinner hlt).2 ▸ hpart)⟩
    · exact ⟨(hinner hx).1, .inr ⟨rfl, (hinner hx).2.symm⟩⟩
  · obtain ⟨hlt, hpart⟩ := hold c hc hq
    exact ⟨(hinner hlt).1, .inl ((hinner hlt).2 ▸ hpart)⟩

open Classical in
omit hp in
/-- A part is taken that embeds nothing which takes parts still: whatever is not complete will be
done later. -/
theorem Ranked.assigned (h : Ranked s [] rank now) (hs : WellFormed s)
    (ht : Taking s owner shape a) (hgrowing : a.stage = .growing)
    (hx : x < s.graph.count) (hready : Ready x s) :
    Ranked (assigned s owner (p.add x a)) []
      (fun y => if IsComplete s.graph y then rank y else now + 1) (now + 1) := by
  have hget := get_assigned (p.add x a) ht.get
  have he : Evolves [owner] s (Resolver.assigned s owner (p.add x a)) :=
    evolves_assigned _ ht.get (by simp [hgrowing])
  have hcomplete (y : Handle) : IsComplete (Resolver.assigned s owner (p.add x a)).graph y ↔
      IsComplete s.graph y :=
    isComplete_assigned ht hgrowing (by rw [PartShape.stage_add, hgrowing])
  have hstays : ∀ y, IsComplete s.graph y → Stays s (Resolver.assigned s owner (p.add x a)) y :=
    fun y hy => .of_get (get_assigned_of_complete ht hgrowing _ hy)
  refine ⟨?_, fun y => ?_, fun y hy => ?_, fun y z b hz hb => ?_⟩
  · refine h.toRings.evolve hs.toLinked he (fun y hy => hstays y (ended_nil.mp hy))
      (fun y hy => hy.imp_left (hcomplete y).mpr) (fun y hy hshort => ?_) fun y hy => ?_
    · have hold := (hcomplete y).mp (ended_nil.mp hy)
      exact ⟨.inl hold, hshort.of_evolves hs he (hstays y hold) hold.choose_spec.1⟩
    · exact if_pos (ended_nil.mp hy)
  · split
    · exact Nat.le_succ_of_le (h.le y)
    · exact Nat.le_refl _
  · exact if_neg fun hold => hy ((hcomplete y).mpr hold)
  · obtain ⟨hlt, hcases⟩ := isPart_assigned hs ht hgrowing hx hz
    obtain ⟨c, hc⟩ := he.isAggregate hlt hb
    rw [hcomplete]
    rcases hcases with hold | ⟨rfl, rfl⟩
    · obtain ⟨hdone, hrank⟩ := h.part y z c hold hc
      refine ⟨hdone, ?_⟩
      rw [if_pos hdone]
      split
      · exact hrank
      · exact Nat.lt_succ_of_le (h.le z)
    · have hdone : IsComplete s.graph (innermost s.graph x) := ⟨c, hc, hready c hc⟩
      have hopen : ¬IsComplete s.graph y := fun hy => hy.not_growing ⟨a, ht.get, hgrowing⟩
      refine ⟨hdone, ?_⟩
      rw [if_pos hdone, if_neg hopen]
      exact Nat.lt_succ_of_le (h.le _)

/-- The innermost aggregate takes the part that it stands before. -/
theorem Tracked.assigned (h : Tracked describe valid size asked [] s)
    (hs : Holding (fun _ => False) s)
    (ht : Taking s owner shape a) (hpart : shape.parts[a.taken]? = some p)
    (hdeclared : s.declared.get? p.ref = some x) (hready : Ready x s)
    (hs' : WellFormed (assigned s owner (p.add x a))) :
    Tracked describe valid size asked [] (assigned s owner (p.add x a)) := by
  have hgrowing : a.stage = .growing := hs.isGrowing ht
  have hget := get_assigned (p.add x a) ht.get
  have he : Evolves [owner] s (Resolver.assigned s owner (p.add x a)) :=
    evolves_assigned _ ht.get (by simp [hgrowing])
  have hplain : Plain describe valid size (Resolver.assigned s owner (p.add x a)) := by
    refine h.plain.reshape rfl rfl rfl (fun _ => rfl) rfl rfl fun y => ?_
    rw [hget]
    split
    · rename_i hy
      exact .inr ⟨a, _, hy ▸ ht.get, rfl, by simp⟩
    · exact .inl rfl
  refine ⟨hplain, fun y b other hb hother => ?_, ?_, nofun, fun y => ?_, fun y key hkey => ?_⟩
  · rw [hget] at hb
    split at hb
    · rename_i hy
      subst hy
      cases hb
      cases ht.placed.symm.trans hother
      obtain ⟨-, htook⟩ := h.partly y a shape ht.get ht.placed
      rw [PartShape.taken_add, PartShape.bare_add, List.take_add_one, hpart]
      refine ⟨(List.getElem?_eq_some_iff.mp hpart).1, ?_⟩
      exact (htook.of_declared he.declared).append (.cons (he.declared _ _ hdeclared) .nil)
    · obtain ⟨hle, htook⟩ := h.partly y b other hb hother
      exact ⟨hle, htook.of_declared he.declared⟩
  · obtain ⟨rank, now, hr⟩ := h.ranked
    exact ⟨_, _, hr.assigned hs.toWellFormed ht hgrowing
      (hs.toLinked.declared _ _ hdeclared) hready⟩
  · rw [isComplete_assigned ht hgrowing (by rw [PartShape.stage_add, hgrowing])]
    refine (h.marks y).trans (and_congr_right fun hy => ?_)
    have hsame := get_assigned_of_complete ht hgrowing (p.add x a) hy
    obtain ⟨b, hb, -⟩ := id hy
    refine or_congr ⟨fun hshort => hshort.evolve he (.of_get hsame),
      fun hshort => hshort.of_evolves hs.toWellFormed he (.of_get hsame) hb⟩ ?_
    unfold Faulty
    rw [hsame]
    refine exists_congr fun c => and_congr_right fun hc => ?_
    rw [isSome_layoutFault?_of_evolves hp h.plain hplain hs.toWellFormed hs' he hc rfl rfl rfl]
  · refine (h.met y key hkey).evolve he fun u d hd => ?_
    rw [hget]
    split
    · rename_i hu
      subst hu
      cases ht.get.symm.trans hd
      exact ⟨_, rfl, by simp⟩
    · exact ⟨d, hd, Nat.le_refl _⟩

omit hp in
/-- On a ring each member leads back to itself. -/
theorem transGen_of_ring {R : Handle → Handle → Prop} {head : Handle} {after : List Handle}
    (h : (head :: (after ++ [head])).IsChain R) (hx : x ∈ head :: after) :
    Relation.TransGen R x x := by
  have hpair := (h.imp fun _ _ => Relation.TransGen.single).pairwise
  obtain ⟨hhead, hrest⟩ := List.pairwise_cons.mp hpair
  rcases List.mem_cons.mp hx with rfl | hmem
  · exact hhead x (List.mem_append_right _ List.mem_cons_self)
  · exact ((List.pairwise_append.mp hrest).2.2 x hmem head List.mem_cons_self).trans
      (hhead x (List.mem_append_left _ hmem))

omit hp in
/-- A ring of aggregates is closed: its members end now, at what they stand before. -/
theorem Tracked.turned (h : Tracked describe valid size asked [] s) {head : Handle}
    {after : List Handle} (hchain : (head :: (after ++ [head])).IsChain (Stands s))
    (hopen : ∀ x ∈ head :: after, ¬IsComplete s.graph x) :
    Tracked describe valid size asked (head :: after) s := by
  have hmem : ∀ y, y ∈ head :: (after ++ [head]) ↔ y ∈ head :: after := by
    intro y
    simp only [List.mem_cons, List.mem_append, List.not_mem_nil, or_false]
    tauto
  have hwithin : (head :: (after ++ [head])).IsChain
      fun y z => z ∈ head :: after ∧ Ended s (head :: after) y ∧ Stands s y z := by
    refine (List.IsChain.iff_mem.mp hchain).imp fun y z ⟨hy, hz, hstands⟩ => ?_
    exact ⟨(hmem z).mp hz, .inr ((hmem y).mp hy), hstands⟩
  -- who is on the ring stands before a member of it
  have hnext : ∀ y ∈ head :: after, ∃ z ∈ head :: after, Stands s y z := by
    intro y hy
    obtain ⟨z, ⟨hz, -, hstands⟩, -⟩ :=
      Relation.TransGen.head'_iff.mp (transGen_of_ring hwithin hy)
    exact ⟨z, hz, hstands⟩
  refine { h with ranked := ?_, short := fun y hy => (hnext y hy).choose_spec.2.short }
  obtain ⟨rank, now, hr⟩ := h.ranked
  refine ⟨rank, now, { hr with ring := fun y hy hshort => ?_, next := fun y z hy hz => ?_ }⟩
  · rcases hy with hcomplete | hy
    · exact Relation.TransGen.mono (fun _ _ hyz => ⟨.inl (ended_nil.mp hyz.1), hyz.2⟩) y y
        (hr.ring y (.inl hcomplete) hshort)
    · exact Relation.TransGen.mono (fun _ _ hyz => hyz.2) y y (transGen_of_ring hwithin hy)
  · rcases hy with hcomplete | hy
    · obtain ⟨hended, hle⟩ := hr.next y z (.inl hcomplete) hz
      exact ⟨.inl (ended_nil.mp hended), hle⟩
    · obtain ⟨z', hz', hstands⟩ := hnext y hy
      obtain rfl := hz.eq hstands
      refine ⟨.inr hz', ?_⟩
      rw [hr.top z (hopen z hz'), hr.top y (hopen y hy)]

/-- An aggregate becomes complete; it is invalid then if it is short or faulty. -/
theorem Tracked.close (h : Tracked describe valid size asked L s) (hs : WellFormed s)
    (hs' : WellFormed s') (ha : s.graph.get x = .aggregate a) (hgrowing : a.stage = .growing)
    (he : Evolves [x] s s') (hgraph : s'.graph = s.graph.finalize x)
    (hplain : Plain describe valid size s') (hL : ∀ y ∈ L, y ∈ L' ∨ y = x) (hL' : ∀ y ∈ L', y ∈ L)
    (hshort : Short s x → x ∈ L)
    (hself : s'.registry.isInvalid x = true ↔ Short s x ∨ Faulty s x)
    (hother : ∀ y, y ≠ x → s'.registry.isInvalid y = s.registry.isInvalid y) :
    Tracked describe valid size asked L' s' := by
  have hget (y : Handle) : s'.graph.get y =
      if y = x then .aggregate { a with stage := .complete } else s.graph.get y :=
    hgraph ▸ Graph.get_finalize ha (by simp [Aggregate.isFinalized, hgrowing]) y
  have hcomplete (y : Handle) : IsComplete s'.graph y ↔ y = x ∨ IsComplete s.graph y := by
    unfold IsComplete
    rw [hget]
    split
    · rename_i hy
      simp [hy]
    · rename_i hy
      simp [hy]
  have hc : Carries [x] s s' :=
    { he with
      old := fun y b hb => by
        rw [hget]
        split
        · rename_i hy
          subst hy
          cases ha.symm.trans hb
          exact ⟨_, rfl⟩
        · exact ⟨b.stage, hb⟩
      new := fun y b hb => by
        rw [hget] at hb
        split at hb
        · rename_i hy
          exact .inl ⟨a, hy ▸ ha⟩
        · exact .inl ⟨b, hb⟩ }
  refine h.carry hp hs hs' hc hplain (fun y hy => ?_) (fun y hy hy' => ?_)
    (fun y hy => h.short y (hL' y hy)) (fun y => ?_) fun y key hy hkey => ?_
  · rcases hy with hold | hmem
    · exact .inl ((hcomplete y).mpr (.inr hold))
    · exact (hL y hmem).elim .inr fun heq => .inl ((hcomplete y).mpr (.inl heq))
  · rcases hy with hnew | hmem
    · rcases (hcomplete y).mp hnew with rfl | hold
      · exact .inr (hshort hy')
      · exact .inl hold
    · exact .inr (hL' y hmem)
  · rw [hcomplete]
    by_cases hy : y = x
    · subst hy
      rw [hself]
      simp
    · rw [hother y hy, h.marks]
      simp [hy]
  · have hcount : s'.graph.count = s.graph.count := by rw [hgraph, Graph.count_finalize]
    exact absurd (hcount ▸ hs'.lt_count_of_keyOf? hkey) (Nat.not_lt.mpr hy)

end

end Resolver

end NativeTypes
