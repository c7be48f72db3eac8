/-
NativeTypes.Proofs.Resolver.Unfinished — what a request leaves behind, whether
it returns or stops.

An aggregate is taken up, takes its parts and ends. If the request stops in
between, the aggregate has left the lists and will not be taken up again: it is
`Abandoned`. Nothing else goes wrong. `Holding` is what is true of the lists
and aggregates at every moment, up to a set of aggregates that were lost; a run
that returns, or that meets a cycle, loses none (`Keeps`). So a request that
returns defines all that it reaches, except what earlier requests abandoned
(`resolve_finished`).

The invariants of the states between requests that return do not hold here,
since a request that stopped may have left anything half done. What is lost is
a parameter of `Holding` for this reason: with the empty set it is the
invariant of a resolver that never stopped, with `Abandoned s` it is that of
one that stopped any number of times, and inside a run the set is what the
callers know to be lost. A stop makes no attempt to say which aggregates it
lost; whoever needs to know reads it off the state (`Resting.abandoned`).

A cycle is the one stop that does not leave a request. It unwinds the
aggregates up to the one where it was entered, and each of them ends with a
mark on the way, so it loses none (`lostBy`).

That exception is real: `exists_unfinished` asks for one struct twice, and the
second answer is a struct without its field.
-/
import NativeTypes.Proofs.Resolver.Parts
import NativeTypes.Proofs.Resolver.Requests
import NativeTypes.Source.Session

namespace NativeTypes.Resolver

variable {σ : Type} {α : Type} {s s' t : State σ} {lost lost' : Handle → Prop} {own : List Handle}

/-! ## 1. The lists and the aggregates

An aggregate that takes parts is in exactly one place: it waits among the placeholders, it is one
of those being defined, or it was lost. The lemmas below say what each elementary step does to
this account. -/

/-- The aggregate was taken up by a request that stopped: it takes parts still, but waits no
more. -/
def Abandoned (s : State σ) (h : Handle) : Prop := IsGrowing s.graph h ∧ h ∉ s.placeholders

/-- Aggregates that take parts still wait, are being defined or are lost. All others took the
parts of their shapes or are invalid. -/
structure Holding (lost : Handle → Prop) (s : State σ) : Prop extends WellFormed s where
  nodup : (s.placeholders ++ s.defining).Nodup
  growing : ∀ h ∈ s.placeholders ++ s.defining, IsGrowing s.graph h
  settled : ∀ h a, s.graph.get h = .aggregate a → IsGrowing s.graph h ∨ IsComplete s.graph h
  accounted : ∀ h, IsGrowing s.graph h → h ∈ s.placeholders ++ s.defining ∨ lost h
  empty : ∀ h ∈ s.placeholders, ∀ a, s.graph.get h = .aggregate a → a.bases = [] ∧ a.fields = []
  faithful : Faithful s

/-- A resolver that never stopped has lost nothing. -/
theorem Sound.holding {module : String} {pending : List Handle} (hs : Sound module pending s) :
    Holding (fun _ => False) s :=
  { hs.toWellFormed with
    nodup := hs.nodup
    growing := fun h hh => (hs.growing h).mpr hh
    settled := hs.settled
    accounted := fun h hh => .inl ((hs.growing h).mp hh)
    empty := hs.empty
    faithful := hs.faithful }

namespace Holding

/-- More may be lost. -/
theorem mono (hs : Holding lost s) (h : ∀ x, lost x → lost' x) : Holding lost' s :=
  { hs with accounted := fun x hx => (hs.accounted x hx).imp_right (h x) }

theorem lt_count (hs : Holding lost s) {h : Handle} (hh : h ∈ s.placeholders ++ s.defining) :
    h < s.graph.count :=
  Graph.lt_count_of_aggregate (hs.growing h hh).choose_spec.1

/-- Whoever is taking parts has not ended. -/
theorem isGrowing (hs : Holding lost s) {owner : Handle} {shape : Shape} {a : Aggregate}
    (h : Taking s owner shape a) : a.stage = .growing := by
  obtain ⟨b, hb, hstage⟩ :=
    hs.growing owner (List.mem_append_right _ (List.mem_of_getLast? h.last))
  rw [h.get] at hb
  cases hb
  exact hstage

/-- Declaring adds aggregates that wait. -/
theorem grow (hs : Holding lost s) (hw : WellFormed s') (hg : Grows s s') : Holding lost s' := by
  obtain ⟨new, hholders, -, hnodup, hnew, hempty⟩ := hg.waiting
  have hback : ∀ h a, s'.graph.get h = .aggregate a → h ∈ new ∨ s.graph.get h = .aggregate a := by
    intro h a ha
    by_cases hlt : h < s.graph.count
    · exact .inr (hg.get h hlt ▸ ha)
    · exact .inl ((hnew h).mpr ⟨Nat.le_of_not_lt hlt, a, ha⟩)
  have hsame : ∀ h ∈ s.placeholders ++ s.defining, s'.graph.get h = s.graph.get h :=
    fun h hh => hg.get h (hs.lt_count hh)
  have hforth : ∀ h a, s.graph.get h = .aggregate a → s'.graph.get h = .aggregate a :=
    fun h a ha => by rw [hg.get h (Graph.lt_count_of_aggregate ha), ha]
  have hfresh : ∀ h ∈ new, IsGrowing s'.graph h := by
    intro h hh
    obtain ⟨-, a, ha⟩ := (hnew h).mp hh
    exact ⟨a, ha, (hempty h hh a ha).2.2⟩
  have hperm : (s.placeholders ++ s.defining ++ new).Perm (s'.placeholders ++ s'.defining) := by
    rw [hholders, hg.defining, List.append_assoc, List.append_assoc]
    exact List.perm_append_comm.append_left _
  refine ⟨hw, hperm.nodup_iff.mp ?_, ?_, ?_, ?_, ?_, ?_⟩
  · refine List.nodup_append.mpr ⟨hs.nodup, hnodup, ?_⟩
    rintro h hh x hx rfl
    exact absurd (hs.lt_count hh) (Nat.not_lt.mpr ((hnew h).mp hx).1)
  · intro h hh
    rcases List.mem_append.mp (hperm.mem_iff.mpr hh) with hold | hadded
    · obtain ⟨a, ha, hstage⟩ := hs.growing h hold
      exact ⟨a, hforth h a ha, hstage⟩
    · exact hfresh h hadded
  · intro h a ha
    rcases hback h a ha with hh | hh
    · exact .inl (hfresh h hh)
    · refine (hs.settled h a hh).imp ?_ ?_
      · exact fun ⟨b, hb, hstage⟩ => ⟨b, hforth h b hb, hstage⟩
      · exact fun ⟨b, hb, hstage⟩ => ⟨b, hforth h b hb, hstage⟩
  · rintro h ⟨a, ha, hstage⟩
    rcases hback h a ha with hh | hh
    · exact .inl (hperm.subset (List.mem_append_right _ hh))
    · exact (hs.accounted h ⟨a, hh, hstage⟩).imp_left fun hold =>
        hperm.subset (List.mem_append_left _ hold)
  · intro h hh a ha
    rw [hholders, List.mem_append] at hh
    rcases hh with hh | hh
    · exact hs.empty h hh a (hsame h (List.mem_append_left _ hh) ▸ ha)
    · exact ⟨(hempty h hh a ha).1, (hempty h hh a ha).2.1⟩
  · refine hs.faithful.evolve hs.toWellFormed (hg.evolves : Evolves [] s s') ?_
    intro h a ha hc
    refine (hback h a ha).resolve_left fun hh => ?_
    have hstage := (hempty h hh a ha).2.2
    rw [hc] at hstage
    cases hstage

/-- An aggregate is taken up. -/
theorem entered (hs : Holding lost s) {h : Handle} (hh : h ∈ s.placeholders) :
    Holding lost (entered s h) := by
  have hperm : (s.placeholders ++ s.defining).Perm
      (s.placeholders.erase h ++ (s.defining ++ [h])) := by
    rw [← List.append_assoc]
    exact ((List.perm_cons_erase hh).append_right _).trans (List.perm_append_singleton h _).symm
  exact ⟨⟨⟨hs.coherent, hs.registered, hs.parts, hs.below, hs.keyBuilt, hs.declared⟩, hs.placed⟩,
    hperm.nodup_iff.mp hs.nodup, fun x hx => hs.growing x (hperm.mem_iff.mpr hx), hs.settled,
    fun x hx => (hs.accounted x hx).imp_left hperm.mem_iff.mp,
    fun x hx => hs.empty x (List.mem_of_mem_erase hx), hs.faithful⟩

/-- An aggregate that is being defined takes a part. -/
theorem assigned (hs : Holding lost s) {h : Handle} {a a' : Aggregate}
    (ha : s.graph.get h = .aggregate a) (hmem : h ∈ s.defining) (hstage : a'.stage = .growing)
    (hkind : a'.kindLost = a.kindLost)
    (hparts : ∀ p ∈ (Instance.aggregate a').parts, p.1 < s.graph.count) :
    Holding lost (assigned s h a') := by
  have hget := get_assigned a' ha
  have hgrowing : a.stage = .growing := by
    obtain ⟨b, hb, hb'⟩ := hs.growing h (List.mem_append_right _ hmem)
    rw [ha] at hb
    cases hb
    exact hb'
  have hsame : ∀ x, IsGrowing (Resolver.assigned s h a').graph x ↔ IsGrowing s.graph x := by
    intro x
    unfold IsGrowing
    rw [hget]
    split
    · rename_i hx
      subst hx
      exact ⟨fun _ => ⟨a, ha, hgrowing⟩, fun _ => ⟨a', rfl, hstage⟩⟩
    · exact Iff.rfl
  refine ⟨hs.toWellFormed.assigned a' ha hkind hparts, hs.nodup,
    fun x hx => (hsame x).mpr (hs.growing x hx), fun x b hb => ?_,
    fun x hx => hs.accounted x ((hsame x).mp hx), fun x hx b hb => ?_,
    hs.faithful.evolve hs.toWellFormed (evolves_assigned a' ha (by simp [hgrowing])) ?_⟩
  · rw [hsame]
    rw [hget] at hb
    split at hb
    · rename_i hx
      exact .inl (hx ▸ ⟨a, ha, hgrowing⟩)
    · rename_i hx
      refine (hs.settled x b hb).imp_right ?_
      rintro ⟨c, hc, hcomplete⟩
      exact ⟨c, by rw [hget, if_neg hx, hc], hcomplete⟩
  · -- what waits is not being defined
    have hx' : x ≠ h := by
      rintro rfl
      exact (List.nodup_append.mp hs.nodup).2.2 x hx x hmem rfl
    rw [hget, if_neg hx'] at hb
    exact hs.empty x hx b hb
  · intro x b hb hc
    rw [hget] at hb
    split at hb
    · cases hb
      rw [hstage] at hc
      cases hc
    · exact hb

/-- Something is marked. -/
theorem marked (hs : Holding lost s) (h : Handle) (reason : String) (ds : List Diagnostic) :
    Holding lost (marked s h reason ds) :=
  ⟨hs.toWellFormed.marked, hs.nodup, hs.growing, hs.settled, hs.accounted, hs.empty,
    hs.faithful.evolve hs.toWellFormed (evolves_marked [] _) fun _ _ ha _ => ha⟩

/-- The innermost aggregate being defined ends, once it follows its shape or is marked. -/
theorem closed (hs : Holding lost s) {h : Handle} {a : Aggregate}
    (ha : s.graph.get h = .aggregate a) (hlast : s.defining.getLast? = some h)
    (hdone : s.registry.isInvalid h = true ∨
      ∀ shape, s.placed.get? h = some shape → Follows s shape a) :
    Holding lost (closed s h) := by
  have hgrowing : a.stage = .growing := by
    obtain ⟨b, hb, hb'⟩ := hs.growing h (List.mem_append_right _ (List.mem_of_getLast? hlast))
    rw [ha] at hb
    cases hb
    exact hb'
  have hget := get_closed ha hgrowing
  have hend := isComplete_closed ha hgrowing
  have hsplit : s.defining = s.defining.dropLast ++ [h] :=
    (List.dropLast_append_getLast? h hlast).symm
  have hperm : (s.placeholders ++ s.defining).Perm
      (h :: (s.placeholders ++ (Resolver.closed s h).defining)) := by
    rw [hsplit, ← List.append_assoc]
    exact List.perm_append_singleton h _
  have hnodup := hperm.nodup_iff.mp hs.nodup
  have hne : ∀ x ∈ s.placeholders ++ (Resolver.closed s h).defining, x ≠ h := by
    rintro x hx rfl
    exact (List.nodup_cons.mp hnodup).1 hx
  have hother : ∀ x b, x ≠ h → (Resolver.closed s h).graph.get x = .aggregate b →
      s.graph.get x = .aggregate b := by
    intro x b hx hb
    rwa [hget, if_neg hx] at hb
  have hback : ∀ x, x ≠ h → (IsGrowing (Resolver.closed s h).graph x ↔ IsGrowing s.graph x) := by
    intro x hx
    unfold IsGrowing
    rw [hget, if_neg hx]
  have hw := hs.toWellFormed.closed ha hgrowing
  refine ⟨hw, (List.nodup_cons.mp hnodup).2, fun x hx => ?_, fun x b hb => ?_, fun x hx => ?_,
    fun x hx b hb => ?_, ?_⟩
  · exact (hback x (hne x hx)).mpr (hs.growing x (hperm.mem_iff.mpr (List.mem_cons_of_mem _ hx)))
  · by_cases hx : x = h
    · exact .inr (hx ▸ hend)
    · rw [hback x hx]
      refine (hs.settled x b (hother x b hx hb)).imp_right ?_
      rintro ⟨c, hc, hstage⟩
      exact ⟨c, by rw [hget, if_neg hx, hc], hstage⟩
  · have hx' : x ≠ h := by
      rintro rfl
      exact hend.not_growing hx
    refine (hs.accounted x ((hback x hx').mp hx)).imp_left fun hmem => ?_
    exact (List.mem_cons.mp (hperm.mem_iff.mp hmem)).resolve_left hx'
  · exact hs.empty x hx b (hother x b (hne x (List.mem_append_left _ hx)) hb)
  · intro x b shape hb hc hvalid hshape
    have he := evolves_closed ha hgrowing
    by_cases hx : x = h
    · subst hx
      rw [hget, if_pos rfl] at hb
      cases hb
      rcases hdone with hmark | hfollows
      · have hvalid : s.registry.isInvalid x = false := hvalid
        rw [hmark] at hvalid
        cases hvalid
      · exact (hfollows shape hshape).evolve he
    · exact (hs.faithful x b shape (hother x b hx hb) hc hvalid hshape).evolve he

/-- The innermost aggregate being defined is left as it is. -/
theorem left (hs : Holding lost s) : Holding (fun _ => True) (left s) :=
  ⟨⟨⟨hs.coherent, hs.registered, hs.parts, hs.below, hs.keyBuilt, hs.declared⟩, hs.placed⟩,
    hs.nodup.sublist ((List.dropLast_sublist _).append_left _),
    fun x hx => hs.growing x (((List.dropLast_sublist _).append_left _).subset hx), hs.settled,
    fun _ _ => .inr trivial, hs.empty, hs.faithful⟩

end Holding

/-! ## 2. Defining
 -/

/-- What is lost when a run stops: nothing if it met a cycle. -/
def lostBy (lost : Handle → Prop) (e : Stop) (h : Handle) : Prop := lost h ∨ e.isCycle = false

/-- Every other stop may lose anything. -/
theorem lostBy_of_not_cycle {e : Stop} (he : e.isCycle = false) :
    lostBy lost e = fun _ => True := by
  funext h
  exact eq_true (.inr he)

theorem exists_path_of_isCycle {e : Stop} (he : e.isCycle = true) :
    ∃ path, e = .valueCycle path := by
  cases e with
  | valueCycle path => exact ⟨path, rfl⟩
  | _ => cases he

theorem lostBy_valueCycle (path : List Key) : lostBy lost (.valueCycle path) = lost := by
  funext h
  exact propext (or_iff_left (by simp [Stop.isCycle]))

/-- What holds is kept, and only a stop loses aggregates. -/
structure Keeps (own : List Handle) (lost : Handle → Prop) (s s' : State σ) : Prop where
  holding : Holding lost s'
  evolves : Evolves own s s'
  defining : s'.defining = s.defining

/-- How aggregates are defined: one that a run returns for is complete. -/
def DefinesAll (lost : Handle → Prop) (define : Handle → Run σ Unit) : Prop :=
  ∀ s h, Holding lost s → Ensures (define h) s
    (fun _ s' => Keeps [] lost s s' ∧ IsComplete s'.graph h)
    fun e s' => Keeps [] (lostBy lost e) s s'

section

variable {declare : Ref → Run σ Handle} {define : Handle → Run σ Unit} {owner h : Handle}
  {shape : Shape} {a : Aggregate}

theorem Keeps.trans {lost'' : Handle → Prop} (h : Keeps own lost s s')
    (h' : Keeps own lost'' s' t) : Keeps own lost'' s t :=
  ⟨h'.holding, h.evolves.trans h'.evolves, h'.defining.trans h.defining⟩

theorem Keeps.weaken (h : Keeps [] lost s s') : Keeps own lost s s' :=
  ⟨h.holding, h.evolves.weaken, h.defining⟩

theorem Keeps.lose (h : Keeps own lost s s') {e : Stop} : Keeps own (lostBy lost e) s s' :=
  ⟨h.holding.mono fun _ => .inl, h.evolves, h.defining⟩

/-- What a part embeds is left alone if it is complete, else it is defined. -/
inductive Embeds (define : Handle → Run σ Unit) (x : Handle) (s : State σ) :
    EStateM.Result Stop (State σ) Unit → Prop
  | alone : Ready x s → Embeds define x s (.ok () s)
  | defined {r : EStateM.Result Stop (State σ) Unit} : IsGrowing s.graph (innermost s.graph x) →
      define (innermost s.graph x) s = r → Embeds define x s r

theorem embeds_defineValue (define : Handle → Run σ Unit) (hs : Holding lost s) (x : Handle) :
    Embeds define x s (defineValue define x s) := by
  rw [defineValue_run]
  cases hget : s.graph.get (innermost s.graph x) with
  | aggregate a =>
    dsimp only
    rcases hs.settled _ a hget with hgrowing | ⟨b, hb, hcomplete⟩
    · have hopen := hgrowing.not_finalized
      rw [hget] at hopen
      rw [if_neg (by simpa [Instance.isFinalized] using hopen)]
      exact .defined hgrowing rfl
    · rw [hget] at hb
      cases hb
      rw [if_pos (by simp [Aggregate.isFinalized, hcomplete])]
      refine .alone fun b hb => ?_
      rw [hget] at hb
      cases hb
      exact hcomplete
  | _ => exact .alone fun b hb => by rw [hget] at hb; cases hb

/-- The type `x` of a part was declared while the innermost aggregate was taking parts. -/
structure Declared (lost : Handle → Prop) (declare : Ref → Run σ Handle) (owner : Handle)
    (shape : Shape) (a : Aggregate) (ref : Ref) (x : Handle) (s s' : State σ) : Prop where
  before : Holding lost s
  run : declare ref s = .ok x s'
  grows : Grows s s'
  holding : Holding lost s'
  taking : Taking s' owner shape a
  lt_count : x < s'.graph.count
  declared : s'.declared.get? ref = some x

/-- What taking parts leads to, with what is known at every state of the loop. -/
inductive Walks (lost : Handle → Prop) (declare : Ref → Run σ Handle) (define : Handle → Run σ Unit)
    (owner : Handle) (shape : Shape) :
    List PartShape → Aggregate → State σ → EStateM.Result Stop (State σ) Unit → Prop
  | done {a : Aggregate} {s : State σ} : Holding lost s → Taking s owner shape a →
      Walks lost declare define owner shape [] a s (.ok () s)
  | undeclared {p : PartShape} {ps : List PartShape} {a : Aggregate} {s s' : State σ} {e : Stop} :
      Holding lost s → Taking s owner shape a → declare p.ref s = .error e s' →
      Keeps [] lost s s' → e.isCycle = false →
      Walks lost declare define owner shape (p :: ps) a s (.error e s')
  | undefined {p : PartShape} {ps : List PartShape} {a : Aggregate} {x : Handle}
      {s s₁ s' : State σ} {e : Stop} :
      Declared lost declare owner shape a p.ref x s s₁ →
      IsGrowing s₁.graph (innermost s₁.graph x) →
      define (innermost s₁.graph x) s₁ = .error e s' → Keeps [] (lostBy lost e) s₁ s' →
      Walks lost declare define owner shape (p :: ps) a s (.error e s')
  | took {p : PartShape} {ps : List PartShape} {a : Aggregate} {x : Handle} {s s₁ s₂ : State σ}
      {r : EStateM.Result Stop (State σ) Unit} :
      Declared lost declare owner shape a p.ref x s s₁ → Embeds define x s₁ (.ok () s₂) →
      Keeps [] lost s₁ s₂ → Taking s₂ owner shape a → Ready x s₂ →
      Keeps [owner] lost s₂ (assigned s₂ owner (p.add x a)) →
      Walks lost declare define owner shape ps (p.add x a) (assigned s₂ owner (p.add x a)) r →
      Walks lost declare define owner shape (p :: ps) a s r

/-- What a part embeds is complete afterwards. -/
theorem Embeds.ready (hdefine : DefinesAll lost define) (hs : Holding lost s) {x : Handle}
    (hx : x < s.graph.count) {r : EStateM.Result Stop (State σ) Unit} (h : Embeds define x s r) :
    Yields r (fun s' => Keeps [] lost s s' ∧ Ready x s')
      fun e s' => Keeps [] (lostBy lost e) s s' := by
  cases h with
  | alone hready => exact ⟨⟨hs, .refl _ _, rfl⟩, hready⟩
  | defined hgrowing hrun =>
    have hkept := hdefine s (innermost s.graph x) hs
    cases r with
    | ok _ s' =>
      obtain ⟨hk, c, hc, hcomplete⟩ := hkept.of_ok hrun
      refine ⟨hk, fun b hb => ?_⟩
      rw [hk.evolves.innermost hs.toLinked hx, hc] at hb
      cases hb
      exact hcomplete
    | error e s' => exact hkept.of_error hrun

/-- The loop over parts as it runs, with all that holds at each of its states. By induction on
the parts that are left. -/
theorem Takes.walks (hdeclare : Declares declare) (hdefine : DefinesAll lost define)
    {ps : List PartShape} {r : EStateM.Result Stop (State σ) Unit}
    (htakes : Takes declare define owner ps s r) (hs : Holding lost s)
    (ht : Taking s owner shape a) : Walks lost declare define owner shape ps a s r := by
  have hdeclared {s s' : State σ} {a : Aggregate} {ref : Ref} {x : Handle} (hs : Holding lost s)
      (ht : Taking s owner shape a) (hrun : declare ref s = .ok x s') :
      Declared lost declare owner shape a ref x s s' := by
    obtain ⟨hw, hg, hx, hdeclared⟩ := (hdeclare s ref hs.toWellFormed).of_ok hrun
    exact ⟨hs, hrun, hg, hs.grow hw hg, ht.evolve hs.nodup hg.evolves hg.defining, hx, hdeclared⟩
  induction htakes generalizing a with
  | done => exact .done hs ht
  | @undeclared s s' p _ e hrun =>
    obtain ⟨hw, hg, he⟩ := (hdeclare s p.ref hs.toWellFormed).of_error hrun
    exact .undeclared hs ht hrun ⟨hs.grow hw hg, hg.evolves, hg.defining⟩ he
  | @undefined s s₁ s' p _ x e hrun hvalue =>
    have hd := hdeclared hs ht hrun
    have hembeds := embeds_defineValue define hd.holding x
    have hready := hembeds.ready hdefine hd.holding hd.lt_count
    rw [hvalue] at hembeds hready
    cases hembeds with
    | defined hgrowing hdefined => exact .undefined hd hgrowing hdefined hready
  | @took s s₁ s₂ p ps x r hrun hvalue _ ih =>
    have hd := hdeclared hs ht hrun
    have hembeds := embeds_defineValue define hd.holding x
    have hready := hembeds.ready hdefine hd.holding hd.lt_count
    rw [hvalue] at hembeds hready
    obtain ⟨hk₂, hready⟩ := hready
    have ht₂ := hd.taking.evolve hd.holding.nodup hk₂.evolves hk₂.defining
    have hgrowing := hk₂.holding.isGrowing ht₂
    have hparts : ∀ y ∈ (Instance.aggregate (p.add x a)).parts, y.1 < s₂.graph.count := by
      intro y hy
      rcases PartShape.mem_parts_add hy with hold | rfl
      · exact hk₂.holding.parts owner y (by rwa [ht₂.get])
      · exact Nat.lt_of_lt_of_le hd.lt_count hk₂.evolves.count
    have hk₃ : Keeps [owner] lost s₂ (assigned s₂ owner (p.add x a)) :=
      ⟨hk₂.holding.assigned ht₂.get (List.mem_of_getLast? ht₂.last) (by simp [hgrowing])
          (by simp) hparts,
        evolves_assigned _ ht₂.get (by simp [hgrowing]), rfl⟩
    rw [added_eq ht₂.get hgrowing] at ih
    exact .took hd hembeds hk₂ ht₂ hready hk₃
      (ih hk₃.holding ⟨ht₂.last, ht₂.placed, by rw [get_assigned _ ht₂.get, if_pos rfl]⟩)

/-- The innermost aggregate takes parts: nothing is lost unless the loop stops, and then not by
meeting a cycle. -/
theorem Walks.keeps {ps : List PartShape} {r : EStateM.Result Stop (State σ) Unit}
    (h : Walks lost declare define owner shape ps a s r) : Yields r
      (fun s' => Keeps [owner] lost s s' ∧ ∃ a', Taking s' owner shape a' ∧ Took s' ps a a')
      fun e s' => Keeps [owner] (lostBy lost e) s s' := by
  induction h with
  | done hs ht => exact ⟨⟨hs, .refl _ _, rfl⟩, _, ht, .nil⟩
  | undeclared _ _ _ hk => exact hk.weaken.lose
  | undefined hd _ _ hk =>
    exact Keeps.trans ⟨hd.holding, hd.grows.evolves, hd.grows.defining⟩ hk.weaken
  | @took p ps a x s s₁ s₂ r hd _ hk₂ _ _ hk₃ _ ih =>
    have hfirst : Keeps [owner] lost s (assigned s₂ owner (p.add x a)) :=
      (Keeps.trans ⟨hd.holding, hd.grows.evolves, hd.grows.defining⟩ hk₂.weaken).trans hk₃
    refine ih.mono ?_ fun _ _ hk => hfirst.trans hk
    rintro s' ⟨hk, a', ht', htook⟩
    refine ⟨hfirst.trans hk, a', ht', .cons ?_ htook⟩
    exact hk.evolves.declared _ _
      (hk₃.evolves.declared _ _ (hk₂.evolves.declared _ _ hd.declared))

/-- From the body of an aggregate to the end of its definition. -/
theorem Keeps.ended {lost₁ : Handle → Prop} (hs : Holding lost s) (hmem : h ∈ s.placeholders)
    (hk : Keeps [h] lost₁ (entered s h) t) (hs' : Holding lost' s') (he : Evolves [h] t s')
    (hdefining : s'.defining = t.defining.dropLast) (hholders : s'.placeholders = t.placeholders) :
    Keeps [] lost' s s' ∧ h ∉ s'.placeholders := by
  refine ⟨⟨hs', .of_waiting ((evolves_entered s h).trans (hk.evolves.trans he)) hmem, ?_⟩, ?_⟩
  · rw [hdefining, hk.defining]
    exact List.dropLast_concat
  · rw [hholders]
    intro hwaits
    rcases hk.evolves.placeholders h hwaits with hold | ⟨hnew, -⟩
    · have hnodup := (List.nodup_append.mp hs.nodup).1
      exact (hnodup.mem_erase_iff.mp hold).1 rfl
    · exact absurd (hs.lt_count (List.mem_append_left _ hmem)) (Nat.not_lt.mpr hnew)

theorem Keeps.left {lost₁ : Handle → Prop} (hs : Holding lost s) (hmem : h ∈ s.placeholders)
    (hk : Keeps [h] lost₁ (entered s h) t) {e : Stop} (he : e.isCycle = false) :
    Keeps [] (lostBy lost e) s (left t) ∧ h ∉ t.placeholders := by
  rw [lostBy_of_not_cycle he]
  exact hk.ended hs hmem hk.holding.left (evolves_left t) rfl rfl

/-- How the definition of `h` ends, seen from before it was taken up. -/
def Finishes (lost : Handle → Prop) (s : State σ) (h : Handle)
    (r : EStateM.Result Stop (State σ) Unit) : Prop :=
  Yields r (fun s' => Keeps [] lost s s' ∧ IsComplete s'.graph h)
    fun e s' => Keeps [] (lostBy lost e) s s' ∧ h ∉ s'.placeholders

/-- All parts were taken: the aggregate ends, with a mark if its parts do not fit. -/
theorem finishes_taken (task : Task σ) (hs : Holding lost s) (hmem : h ∈ s.placeholders)
    (hk : Keeps [h] lost (entered s h) t) (ht : Taking t h shape a) (hfollows : Follows t shape a) :
    Finishes lost s h (finish task h (.ok () t)) := by
  have hgrowing := hk.holding.isGrowing ht
  obtain ⟨key, hkey⟩ := hk.holding.toLinked.exists_key (Graph.lt_count_of_aggregate ht.get)
  simp only [finish, checkLayout_eq, ht.get, hkey]
  cases t.graph.layoutFault? a with
  | none =>
    refine ⟨(hk.ended hs hmem (hk.holding.closed ht.get ht.last (.inr ?_))
      (evolves_closed ht.get hgrowing) rfl rfl).1, isComplete_closed ht.get hgrowing⟩
    intro other hother
    rw [ht.placed] at hother
    cases hother
    exact hfollows
  | some fault =>
    simp only
    cases fault.isWritable with
    | true =>
      have hmarked := hk.holding.marked h fault.message
        [(TypeProblem.invalidLayout fault.message).diagnostic (key.text task.module) task.module]
      exact ⟨(hk.ended hs hmem (hmarked.closed ht.get ht.last (.inl (isInvalid_marked _)))
        ((evolves_marked _ _).trans (evolves_closed ht.get hgrowing)) rfl rfl).1,
        isComplete_closed (s := marked t h _ _) ht.get hgrowing⟩
    | false => exact hk.left hs hmem rfl

/-- A cycle was met: the aggregate ends with a mark, whether the cycle goes on or not. -/
theorem finishes_cycle (task : Task σ) (hs : Holding lost s) (hmem : h ∈ s.placeholders)
    (hk : Keeps [h] lost (entered s h) t) (path : List Key) :
    Finishes lost s h (finish task h (.error (.valueCycle path) t)) := by
  have hlast : t.defining.getLast? = some h := by
    rw [hk.defining]
    simp [entered]
  obtain ⟨b, hb, hgrowing⟩ :=
    hk.holding.growing h (List.mem_append_right _ (List.mem_of_getLast? hlast))
  obtain ⟨key, hkey⟩ := hk.holding.toLinked.exists_key (Graph.lt_count_of_aggregate hb)
  obtain ⟨reason, ds, hmeet⟩ := exists_meetCycle_run task hkey path
  have hmet : ∀ ds, Keeps [] lost s (closed (marked t h reason ds) h) ∧
      h ∉ (closed (marked t h reason ds) h).placeholders := fun ds =>
    hk.ended hs hmem ((hk.holding.marked h reason ds).closed hb hlast (.inl (isInvalid_marked _)))
      ((evolves_marked _ _).trans (evolves_closed hb hgrowing)) rfl rfl
  simp only [finish, hmeet]
  by_cases hhead : path.head? = some key
  · rw [if_pos hhead]
    exact ⟨(hmet ds).1, isComplete_closed (s := marked t h reason ds) hb hgrowing⟩
  · rw [if_neg hhead]
    refine ⟨?_, (hmet []).2⟩
    rw [lostBy_valueCycle]
    exact (hmet []).1

/-- **Defining an aggregate** loses nothing unless it stops, and then not by meeting a cycle. -/
theorem holds_defineOnce (task : Task σ) (hdeclare : Declares declare)
    (hdefine : DefinesAll lost define) (hs : Holding lost s) (h : Handle) :
    Ensures (defineOnce task declare define h) s
      (fun _ s' => Keeps [] lost s s' ∧ IsComplete s'.graph h)
      fun e s' => Keeps [] (lostBy lost e) s s' ∧ h ∉ s'.placeholders := by
  by_cases hh : h ∈ s.defining
  · obtain ⟨path, -, hrun⟩ := exists_defineOnce_cycle task declare define hs.toLinked hh
      fun x hx => hs.lt_count (List.mem_append_right _ hx)
    unfold Ensures
    rw [hrun]
    refine ⟨⟨hs.mono fun _ => .inl, .refl _ _, rfl⟩, fun hmem => ?_⟩
    exact (List.nodup_append.mp hs.nodup).2.2 h hmem h hh rfl
  by_cases hmem : h ∈ s.placeholders
  · obtain ⟨a, ha, -⟩ := hs.growing h (List.mem_append_left _ hmem)
    obtain ⟨shape, hshape⟩ := (hs.placed h).mpr ⟨a, ha⟩
    obtain ⟨hbases, hfields⟩ := hs.empty h hmem a ha
    have htaking : Taking (entered s h) h shape a := ⟨by simp [entered], hshape, ha⟩
    obtain ⟨r, htakes, hrun⟩ := exists_takes task declare define hh hmem hshape
    have hparts := (htakes.walks hdeclare hdefine (hs.entered hmem) htaking).keeps
    refine Yields.ensures (Q := fun s' => Keeps [] lost s s' ∧ IsComplete s'.graph h) ?_
    rw [hrun]
    cases r with
    | ok _ t =>
      obtain ⟨hk, a', ht, htook⟩ := hparts
      exact finishes_taken task hs hmem hk ht (htook.follows hbases hfields)
    | error e t =>
      have hk : Keeps [h] (lostBy lost e) (entered s h) t := hparts
      cases he : e.isCycle with
      | false =>
        rw [finish_stopped task h he]
        exact hk.left hs hmem he
      | true =>
        obtain ⟨path, rfl⟩ := exists_path_of_isCycle he
        rw [lostBy_valueCycle] at hk
        exact finishes_cycle task hs hmem hk path
  · unfold Ensures
    rw [defineOnce_lost task declare define hh hmem]
    exact ⟨⟨hs.mono fun _ => .inl, .refl _ _, rfl⟩, hmem⟩

end

/-! ## 3. Requests
 -/

variable {task : Task σ}

variable (task) in
/-- By induction on how deeply aggregates lie inside each other. -/
theorem definesAll_define (depth n : Nat) : DefinesAll lost (define task depth n) := by
  induction n with
  | zero => exact fun s h hs => ⟨hs.mono fun _ => .inl, .refl _ _, rfl⟩
  | succ n ih =>
    intro s h hs
    exact (holds_defineOnce task (declares_declare task depth) ih hs h).mono (fun _ _ hk => hk)
      fun _ _ hk => hk.1

/-- A resolver that no request is under way for: what waits is on the worklist. -/
structure Resting (lost : Handle → Prop) (s : State σ) : Prop extends Holding lost s where
  listed : ∀ h ∈ s.placeholders, h ∈ s.worklist
  defining_eq : s.defining = []

/-- What is lost is what was abandoned. -/
theorem Resting.abandoned (hs : Resting lost s) : Resting (Abandoned s) s :=
  { hs with
    accounted := fun h hh => by
      by_cases hmem : h ∈ s.placeholders
      · exact .inl (List.mem_append_left _ hmem)
      · exact .inr ⟨hh, hmem⟩ }

theorem Resting.mono (hs : Resting lost s) (h : ∀ x, lost x → lost' x) : Resting lost' s :=
  ⟨hs.toHolding.mono h, hs.listed, hs.defining_eq⟩

/-- What is declared between definitions waits, and is listed. -/
theorem Resting.grow (hs : Resting lost s) (hw : WellFormed s') (hg : Grows s s') :
    Resting lost s' where
  toHolding := hs.toHolding.grow hw hg
  listed := by
    obtain ⟨new, hholders, hlist, -⟩ := hg.waiting
    rw [hholders, hlist]
    exact fun h hh => (List.mem_append.mp hh).elim
      (fun hold => List.mem_append_left _ (hs.listed h hold)) (List.mem_append_right _)
  defining_eq := hg.defining.trans hs.defining_eq

/-- The worklist loses its first aggregate, which waits no more. -/
theorem Resting.after_define (hs : Resting lost s) {h : Handle} {rest : List Handle}
    (hlist : s.worklist = h :: rest) (hk : Keeps [] lost' { s with worklist := rest } s')
    (hnot : h ∉ s'.placeholders) : Resting lost' s' where
  toHolding := hk.holding
  listed := fun x hx => by
    rcases hk.evolves.placeholders x hx with hold | ⟨-, hnew⟩
    · have hmem := hs.listed x hold
      rw [hlist] at hmem
      rcases List.mem_cons.mp hmem with rfl | hmem
      · exact absurd hx hnot
      · exact hk.evolves.worklist.subset hmem
    · exact hnew
  defining_eq := hk.defining.trans hs.defining_eq

/-- The worklist loses its first aggregate. -/
theorem Holding.popped (hs : Holding lost s) (rest : List Handle) :
    Holding lost { s with worklist := rest } :=
  ⟨⟨⟨hs.coherent, hs.registered, hs.parts, hs.below, hs.keyBuilt, hs.declared⟩, hs.placed⟩,
    hs.nodup, hs.growing, hs.settled, hs.accounted, hs.empty, hs.faithful⟩

/-- Taking from the worklist what is complete, or no aggregate. -/
theorem Resting.skip (hs : Resting lost s) {h : Handle} {rest : List Handle}
    (hlist : s.worklist = h :: rest) (hfinal : (s.graph.get h).isFinalized = true) :
    Resting lost { s with worklist := rest } := by
  refine hs.after_define hlist ⟨hs.toHolding.popped rest, .refl _ _, rfl⟩ fun hmem => ?_
  rw [(hs.growing h (List.mem_append_left _ hmem)).not_finalized] at hfinal
  cases hfinal

/-- Taking from the worklist what still grows, and defining it. -/
theorem rests_define (depth n : Nat) (hs : Resting lost s) {h : Handle} {rest : List Handle}
    (hlist : s.worklist = h :: rest) :
    Ensures (define task depth (n + 1) h) { s with worklist := rest }
      (fun _ s' => Resting lost s') fun _ s' => Resting (fun _ => True) s' := by
  have hdefine := holds_defineOnce task (declares_declare task depth)
    (definesAll_define task depth n) (hs.toHolding.popped rest) h
  refine hdefine.mono ?_ ?_
  · rintro _ t ⟨hk, hcomplete⟩
    exact hs.after_define hlist hk fun hmem =>
      hcomplete.not_growing (hk.holding.growing h (List.mem_append_left _ hmem))
  · rintro e t ⟨hk, hnot⟩
    exact (hs.after_define hlist hk hnot).mono fun _ _ => trivial

/-- With an empty worklist nothing waits. -/
theorem Resting.placeholders_eq (hs : Resting lost s) (hlist : s.worklist = []) :
    s.placeholders = [] := by
  refine List.eq_nil_iff_forall_not_mem.mpr fun h hh => ?_
  have hmem := hs.listed h hh
  rw [hlist] at hmem
  cases hmem

/-- Draining takes up everything that waits; what it cannot finish it abandons. -/
theorem rests_drain (depth n : Nat) (hs : Resting lost s) :
    Ensures (drain task (depth + 1) n) s (fun _ s' => Resting lost s' ∧ s'.placeholders = [])
      fun _ s' => Resting (fun _ => True) s' := by
  induction n generalizing s with
  | zero =>
    unfold Ensures
    cases hlist : s.worklist with
    | nil =>
      rw [drain_nil _ 0 hlist]
      exact ⟨hs, hs.placeholders_eq hlist⟩
    | cons h rest =>
      simp only [drain, run_get_bind, hlist, List.isEmpty_cons, Bool.not_false, if_true]
      exact hs.mono fun _ _ => trivial
  | succ n ih =>
    cases hlist : s.worklist with
    | nil =>
      unfold Ensures
      rw [drain_nil _ (n + 1) hlist]
      exact ⟨hs, hs.placeholders_eq hlist⟩
    | cons h rest =>
      unfold Ensures
      rw [drain_cons _ n hlist]
      cases hfinal : (s.graph.get h).isFinalized with
      | true =>
        rw [if_pos rfl]
        exact ih (hs.skip hlist hfinal)
      | false =>
        rw [if_neg (by simp)]
        exact ensures_bind (rests_define (depth + 1) depth hs hlist) fun _ t ht => ih ht

/-- A request: its reference is declared, and the worklist drained. -/
theorem rests_resolve (limits : Limits) (ref : Ref) (hs : Resting lost s) :
    Ensures (resolve task limits ref) s (fun _ s' => Resting lost s' ∧ s'.placeholders = [])
      fun _ s' => Resting (fun _ => True) s' := by
  obtain ⟨depth, total⟩ := limits
  cases depth with
  | zero => exact hs.mono fun _ _ => trivial
  | succ depth =>
    have hdeclare := declares_declare task (depth + 1) s ref hs.toWellFormed
    refine ensures_bind (P := fun _ s' => Resting lost s') (Ensures.mono hdeclare ?_ ?_) ?_
    · rintro _ t ⟨hw, hg, -⟩
      exact hs.grow hw hg
    · rintro e t ⟨hw, hg, -⟩
      exact (hs.grow hw hg).mono fun _ _ => trivial
    · intro root t ht
      exact ensures_bind (rests_drain depth total ht) fun _ u hu => hu

/-- Nothing was taken up yet. -/
theorem resting_start (session : σ) : Resting (fun _ => False) (State.start session) where
  toHolding := (settled_start "" session).toSound.holding
  listed := fun _ hh => hh
  defining_eq := rfl

/-- Requests lead to states of rest, whether they return or stop. -/
theorem Requests.resting {session : σ} (h : Requests task (State.start session) s) :
    Resting (Abandoned s) s := by
  induction h with
  | refl => exact (resting_start session).abandoned
  | tail _ hlast ih =>
    cases hlast with
    | returned hrun => exact ((rests_resolve _ _ ih).of_ok hrun).1.abandoned
    | stopped hrun => exact ((rests_resolve _ _ ih).of_error hrun).abandoned

/-- An aggregate with nothing left to do: it takes no more parts, and it has all bases and fields
of its shape, in order, or is invalid. -/
def IsFinished (s : State σ) (h : Handle) : Prop :=
  IsComplete s.graph h ∧ (s.registry.isInvalid h = true ∨
    ∃ shape a, s.placed.get? h = some shape ∧ s.graph.get h = .aggregate a ∧ Follows s shape a)

/-- **A request that returns finishes what it reaches**, whatever was requested before and however
the source failed then, except for aggregates that an earlier request took up and abandoned. It
abandons nothing itself. -/
theorem resolve_finished {session : σ} (hs : Requests task (State.start session) s)
    {limits : Limits} {ref : Ref} {root : Handle}
    (hrun : resolve task limits ref s = .ok root s') :
    (∀ x a, Relation.ReflTransGen (DependsOn s'.graph) root x → s'.graph.get x = .aggregate a →
      IsFinished s' x ∨ Abandoned s x) ∧
    ∀ x, Abandoned s' x → Abandoned s x := by
  obtain ⟨hs', hnone⟩ := (rests_resolve limits ref hs.resting).of_ok hrun
  have hlost : ∀ x, IsGrowing s'.graph x → Abandoned s x := by
    intro x hx
    refine (hs'.accounted x hx).resolve_left ?_
    rw [hnone, hs'.defining_eq]
    exact List.not_mem_nil
  refine ⟨fun x a _ ha => ?_, fun x hx => hlost x hx.1⟩
  rcases hs'.settled x a ha with hgrowing | hcomplete
  · exact .inr (hlost x hgrowing)
  · refine .inl ⟨hcomplete, ?_⟩
    obtain ⟨shape, hshape⟩ := (hs'.placed x).mpr ⟨a, ha⟩
    cases hvalid : s'.registry.isInvalid x with
    | true => exact .inl rfl
    | false =>
      obtain ⟨b, hb, hstage⟩ := hcomplete
      rw [ha] at hb
      cases hb
      exact .inr ⟨shape, a, hshape, ha, hs'.faithful x a shape ha hstage hvalid hshape⟩

/-- The tables of a list node, and of a struct with a field of another type. -/
def nodeTables : Catalog :=
  (Catalog.add {} "m" (Shape.ofAggregate "Node" (some 8)
    [⟨"next", .name "Node*", 0, none, none, false⟩] [] false) none).add "m"
    (Shape.ofAggregate "S" (some 4) [⟨"x", .name "X", 0, none, none, false⟩] [] false) none

/-- A session over these tables that loses the type of the field. -/
def losingTask : Task Session := ⟨Session.source { lost := [.name "X"] }, "m"⟩

/-- The struct as it is left by a request for it. -/
def unfinished : Aggregate := { name := "S", size := some 4 }

/-- The list node with its pointer. -/
def finishedNode : Aggregate :=
  { name := "Node", size := some 8, fields := [{ name := "next", type := 2, offset := 0 }],
    stage := .complete }

/-- After a request that abandoned the struct, the list node is finished. -/
theorem resolve_finished_node : ∃ s root s',
    Requests losingTask (State.start ⟨nodeTables, false⟩) s ∧ Abandoned s 0 ∧
      resolve losingTask ⟨8, 8⟩ (.name "Node") s = .ok root s' ∧ IsFinished s' root := by
  have hruns : stops (resolve losingTask ⟨8, 8⟩ (.name "S")) (State.start ⟨nodeTables, false⟩)
      (fun _ s =>
        decide (s.graph.get 0 = .aggregate unfinished ∧ 0 ∉ s.placeholders ∧ s.graph.count = 1) &&
        returns (resolve losingTask ⟨8, 8⟩ (.name "Node")) s fun root s' =>
          decide (root = 1 ∧ s'.graph.get 1 = .aggregate finishedNode)) = true := by
    decide +kernel
  obtain ⟨e, s, hfail, hruns⟩ := exists_of_stops hruns
  obtain ⟨hleft, hruns⟩ := Bool.and_eq_true_iff.mp hruns
  obtain ⟨hget, hmem, hcount⟩ := of_decide_eq_true hleft
  obtain ⟨root, s', hrun, hresult⟩ := exists_of_returns hruns
  obtain ⟨rfl, hnode⟩ := of_decide_eq_true hresult
  have hs : Requests losingTask (State.start ⟨nodeTables, false⟩) s := .single (.stopped hfail)
  refine ⟨s, 1, s', hs, ⟨⟨_, hget, rfl⟩, hmem⟩, hrun, ?_⟩
  refine ((resolve_finished hs hrun).1 1 _ .refl hnode).resolve_right ?_
  rintro ⟨⟨a, ha, -⟩, -⟩
  have hlt := Graph.lt_count_of_aggregate ha
  rw [hcount] at hlt
  exact absurd hlt (Nat.lt_irrefl 1)

/-- **A type can be handed out unfinished**: a struct whose field could not be looked up is asked
for again, and what is returned then is neither complete nor invalid. -/
theorem exists_unfinished : ∃ s root s',
    Requests losingTask (State.start ⟨nodeTables, false⟩) s ∧
      resolve losingTask ⟨8, 8⟩ (.name "S") s = .ok root s' ∧ ¬IsFinished s' root := by
  have hruns : stops (resolve losingTask ⟨8, 8⟩ (.name "S")) (State.start ⟨nodeTables, false⟩)
      (fun _ s => returns (resolve losingTask ⟨8, 8⟩ (.name "S")) s fun root s' =>
        decide (s'.graph.get root = .aggregate unfinished)) = true := by
    decide +kernel
  obtain ⟨e, s, hfail, hruns⟩ := exists_of_stops hruns
  obtain ⟨root, s', hrun, hget⟩ := exists_of_returns hruns
  refine ⟨s, root, s', .single (.stopped hfail), hrun, fun hfinished => ?_⟩
  exact hfinished.1.not_growing ⟨_, of_decide_eq_true hget, rfl⟩

end NativeTypes.Resolver
