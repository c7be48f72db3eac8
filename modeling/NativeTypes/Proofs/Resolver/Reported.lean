/-
NativeTypes.Proofs.Resolver.Reported — nothing is marked invalid in silence.

`Told` — an instance with a mark is an aggregate, and it is on a cycle or the
fault of its layout is among the diagnostics, under its key. Which ring a cycle
came from is said elsewhere (`Explained`); here it is about the layout, and
about the diagnostics of a resolver being of four kinds only.

`Tells` is the step relation: nothing is taken back, and marks that are new are
told. The functions that define aggregates are gone through once more for it,
whatever order they meet cycles in: unlike `Sound` this holds where a ring is
being unwound as well, so nothing is needed about the aggregates that are being
defined.

A relation between two states is used, and not an invariant, because of the
diagnostics. They are only ever appended to, and a mark is told by one that was
there when it was made or right after; so what is told at one moment is told at
any later one, and the relation composes. It holds also where a run stops,
which is what lets the exports that fail be counted.
-/
import NativeTypes.Proofs.Resolver.Cycles

namespace NativeTypes.Resolver

variable {σ : Type} {α β : Type} {s s' s'' : State σ} {module : String}

/-! ## 1. What is told -/

/-- The mark of an aggregate is for a cycle, or the fault of its layout is reported. -/
structure Told (module : String) (s : State σ) (h : Handle) (reason : String) : Prop where
  aggregate : ∃ a, s.graph.get h = .aggregate a
  reported : (∃ path, reason = (TypeProblem.valueCycle path).message) ∨
    ∃ key, s.registry.keyOf? h = some key ∧
      (TypeProblem.invalidLayout reason).diagnostic (key.text module) module ∈ s.diagnostics

/-- The kinds of problems that a resolver finds. -/
def FoundWhileResolving (d : Diagnostic) : Prop :=
  d.kind ≠ .invalidDependency ∧ d.kind ≠ .renderFailure

/-- Nothing is taken back, and new marks are told. -/
structure Tells (module : String) (s s' : State σ) : Prop where
  count : s.graph.count ≤ s'.graph.count
  aggregate : ∀ h a, s.graph.get h = .aggregate a → ∃ a', s'.graph.get h = .aggregate a'
  keys : ∀ h, s.registry.keysOf h <+: s'.registry.keysOf h
  diagnostics : ∃ ds, s'.diagnostics = s.diagnostics ++ ds ∧ ∀ d ∈ ds, FoundWhileResolving d
  marks : ∀ h reason, s'.registry.invalid.get? h = some reason →
    s.registry.invalid.get? h = some reason ∨ Told module s' h reason

/-- What was told stays told. -/
theorem Told.later {h : Handle} {reason : String} (ht : Told module s h reason)
    (hs : Tells module s s') : Told module s' h reason where
  aggregate := by
    obtain ⟨a, ha⟩ := ht.aggregate
    exact hs.aggregate h a ha
  reported := by
    refine ht.reported.imp_right ?_
    rintro ⟨key, hkey, hmem⟩
    obtain ⟨ds, hds, -⟩ := hs.diagnostics
    exact ⟨key, Registry.keyOf?_of_prefix (hs.keys h) hkey, hds ▸ List.mem_append_left _ hmem⟩

namespace Tells

/-- A change of neither keys nor marks. -/
theorem of_unmarked (hcount : s.graph.count ≤ s'.graph.count)
    (haggregate : ∀ h a, s.graph.get h = .aggregate a → ∃ a', s'.graph.get h = .aggregate a')
    (hregistry : s'.registry = s.registry) (hdiagnostics : s'.diagnostics = s.diagnostics) :
    Tells module s s' where
  count := hcount
  aggregate := haggregate
  keys := fun _ => hregistry ▸ List.prefix_refl _
  diagnostics := ⟨[], by simp [hdiagnostics], by simp⟩
  marks := fun _ _ hr => .inl (hregistry ▸ hr)

theorem refl (s : State σ) : Tells module s s :=
  of_unmarked (Nat.le_refl _) (fun _ a ha => ⟨a, ha⟩) rfl rfl

theorem trans (h : Tells module s s') (h' : Tells module s' s'') : Tells module s s'' where
  count := Nat.le_trans h.count h'.count
  aggregate := fun x a ha => by
    obtain ⟨a', ha'⟩ := h.aggregate x a ha
    exact h'.aggregate x a' ha'
  keys := fun x => (h.keys x).trans (h'.keys x)
  diagnostics := by
    obtain ⟨ds, hds, hfound⟩ := h.diagnostics
    obtain ⟨ds', hds', hfound'⟩ := h'.diagnostics
    refine ⟨ds ++ ds', by rw [hds', hds, List.append_assoc], fun d hd => ?_⟩
    exact (List.mem_append.mp hd).elim (hfound d) (hfound' d)
  marks := fun x reason hr => by
    rcases h'.marks x reason hr with hold | hnew
    · exact (h.marks x reason hold).imp_right fun ht => ht.later h'
    · exact .inr hnew

end Tells

/-- Declaring marks nothing. -/
theorem Grows.tells (h : Grows s s') : Tells module s s' where
  count := h.count
  aggregate := fun x a ha => ⟨a, by rw [h.get x (Graph.lt_count_of_aggregate ha), ha]⟩
  keys := h.keys
  diagnostics := by
    obtain ⟨ds, hds, hkinds⟩ := h.diagnostics
    refine ⟨ds, hds, fun d hd => ?_⟩
    rcases hkinds d hd with hk | hk
    · simp [FoundWhileResolving, hk]
    · simp [FoundWhileResolving, hk]
  marks := fun x reason hr => .inl (h.invalid ▸ hr)

/-! ## 2. Runs -/

/-- A run from `s` leads to a well-formed state, tells what it marks, whether it returns or
stops, and what it returns satisfies `Q`. -/
def Telling (module : String) (s : State σ) (run : Run σ α) (Q : α → State σ → Prop) : Prop :=
  Ensures run s (fun a s' => (WellFormed s' ∧ Tells module s s') ∧ Q a s')
    fun _ s' => WellFormed s' ∧ Tells module s s'

/-- Nothing happens. -/
theorem telling_pure (hs : WellFormed s) {a : α} {Q : α → State σ → Prop} (ha : Q a s) :
    Telling module s (pure a) Q :=
  ⟨⟨hs, Tells.refl s⟩, ha⟩

theorem telling_throw (hs : WellFormed s) (e : Stop) (Q : α → State σ → Prop) :
    Telling module s (throw e) Q :=
  ⟨hs, Tells.refl s⟩

/-- One run after the other. -/
theorem telling_bind {run : Run σ α} {next : α → Run σ β} {P : α → State σ → Prop}
    {Q : β → State σ → Prop} (hrun : Telling module s run P)
    (hnext : ∀ a s', WellFormed s' → Tells module s s' → P a s' →
      Telling module s' (next a) Q) :
    Telling module s (run >>= next) Q := by
  refine ensures_bind hrun ?_
  rintro a s' ⟨⟨hs', ht⟩, ha⟩
  exact (hnext a s' hs' ht ha).mono (fun b t ⟨⟨hw, htt⟩, hb⟩ => ⟨⟨hw, ht.trans htt⟩, hb⟩)
    fun e t ⟨hw, htt⟩ => ⟨hw, ht.trans htt⟩

/-- Reading the state first. -/
theorem telling_get_bind {next : State σ → Run σ β} {Q : β → State σ → Prop}
    (hnext : Telling module s (next s) Q) : Telling module s (get >>= next) Q :=
  hnext

/-- A run tells no less of its result than it is asked. -/
theorem Telling.mono {run : Run σ α} {P Q : α → State σ → Prop}
    (hrun : Telling module s run P) (h : ∀ a s', Tells module s s' → P a s' → Q a s') :
    Telling module s run Q :=
  Ensures.mono hrun (fun a s' ⟨⟨hw, ht⟩, ha⟩ => ⟨⟨hw, ht⟩, h a s' ht ha⟩) fun _ _ he => he

/-- The declare phase marks nothing. -/
theorem Steps.telling {run : Run σ α} {Q : α → State σ → Prop} (hrun : Steps s run Q) :
    Telling module s run Q :=
  Ensures.mono hrun (fun _ _ ⟨hw, hg, ha⟩ => ⟨⟨hw, hg.tells⟩, ha⟩)
    fun _ _ ⟨hw, hg, _⟩ => ⟨hw, hg.tells⟩

/-! ## 3. Changes of one state -/

/-- What neither well-formedness nor marks are about: the source, and what waits or is open. -/
theorem wellFormed_tells_of_eq (module : String) (hs : WellFormed s) (s' : State σ)
    (h : (s'.graph, s'.registry, s'.declared, s'.placed, s'.diagnostics) =
      (s.graph, s.registry, s.declared, s.placed, s.diagnostics)) :
    WellFormed s' ∧ Tells module s s' := by
  simp only [Prod.mk.injEq] at h
  obtain ⟨hgraph, hregistry, hdeclared, hplaced, hdiagnostics⟩ := h
  refine ⟨⟨⟨hregistry ▸ hs.coherent, ?_, ?_, ?_, ?_, ?_⟩, ?_⟩,
    Tells.of_unmarked (Nat.le_of_eq (by rw [hgraph])) (fun x a ha => ⟨a, by rw [hgraph, ha]⟩)
      hregistry hdiagnostics⟩
  · simpa [hregistry, hgraph] using hs.registered
  · simpa [hgraph] using hs.parts
  · simpa [hgraph] using hs.below
  · simpa [hregistry, hgraph] using hs.keyBuilt
  · simpa [hgraph, hdeclared] using hs.declared
  · simpa [hgraph, hplaced] using hs.placed

/-- An aggregate becomes another one, whose parts lie in the graph. -/
theorem wellFormed_tells_assigned (hs : WellFormed s) {h : Handle} {a : Aggregate}
    (ha : s.graph.get h = .aggregate a) (a' : Aggregate) (hkind : a'.kindLost = a.kindLost)
    (hparts : ∀ p ∈ (Instance.aggregate a').parts, p.1 < s.graph.count) :
    WellFormed (assigned s h a') ∧ Tells module s (assigned s h a') := by
  refine ⟨hs.assigned a' ha hkind hparts, .of_unmarked ?_ ?_ rfl rfl⟩
  · exact Nat.le_of_eq (Graph.count_set _ _ _).symm
  · intro x b hb
    rw [get_assigned a' ha]
    split
    · exact ⟨a', rfl⟩
    · exact ⟨b, hb⟩

/-- A mark that is told. -/
theorem wellFormed_tells_marked (hs : WellFormed s) {h : Handle} (reason : String)
    (ds : List Diagnostic) (htold : Told module (marked s h reason ds) h reason)
    (hds : ∀ d ∈ ds, FoundWhileResolving d) :
    WellFormed (marked s h reason ds) ∧ Tells module s (marked s h reason ds) := by
  refine ⟨⟨⟨hs.coherent.markInvalid h reason, hs.registered, hs.parts, hs.below, hs.keyBuilt,
    hs.declared⟩, hs.placed⟩, ⟨Nat.le_refl _, fun x a ha => ⟨a, ha⟩,
    fun _ => List.prefix_refl _, ⟨ds, rfl, hds⟩, fun x r hr => ?_⟩⟩
  refine (get?_invalid_marked hr).imp_right ?_
  rintro ⟨rfl, rfl⟩
  exact htold

/-- Marks for cycles are told where the cycle was entered. -/
theorem telling_markInvalid (hs : WellFormed s) {h : Handle} {a : Aggregate}
    (ha : s.graph.get h = .aggregate a) {reason : String}
    (hreason : ∃ path, reason = (TypeProblem.valueCycle path).message) :
    Telling module s (markInvalid h reason : Run σ Unit) fun _ _ => True := by
  have hmarked := wellFormed_tells_marked hs reason [] (⟨⟨a, ha⟩, .inl hreason⟩ :
    Told module (marked s h reason []) h reason) (by simp)
  refine ⟨?_, trivial⟩
  simpa [marked] using hmarked

/-- An aggregate takes one more part; a change that is refused changes nothing. -/
theorem telling_changeGraph (hs : WellFormed s) {owner t : Handle} (ht : t < s.graph.count)
    {add : Aggregate → Aggregate} (hkind : ∀ a, (add a).kindLost = a.kindLost)
    (hadd : ∀ a, ∀ p ∈ (Instance.aggregate (add a)).parts,
      p ∈ (Instance.aggregate a).parts ∨ p = (t, true)) :
    Telling module s (changeGraph fun g => g.change owner add : Run σ Unit) fun _ _ => True := by
  refine ⟨?_, trivial⟩
  show WellFormed { s with graph := (s.graph.change owner add).toOption.getD s.graph } ∧
    Tells module s { s with graph := (s.graph.change owner add).toOption.getD s.graph }
  unfold Graph.change
  split
  · rename_i a ha
    split
    · exact ⟨hs, Tells.refl s⟩
    · refine wellFormed_tells_assigned hs ha (add a) (hkind a) fun p hp => ?_
      rcases hadd a p hp with hold | rfl
      · exact hs.parts owner p (ha ▸ hold)
      · exact ht
  · exact ⟨hs, Tells.refl s⟩

/-- An aggregate that ends has no new mark. -/
theorem telling_finalize (hs : WellFormed s) (h : Handle) :
    Telling module s (finalize h : Run σ Unit) fun _ _ => True := by
  refine ⟨?_, trivial⟩
  show WellFormed { s with graph := s.graph.finalize h } ∧
    Tells module s { s with graph := s.graph.finalize h }
  unfold Graph.finalize
  split
  · rename_i a ha
    split
    · exact ⟨hs, Tells.refl s⟩
    · refine wellFormed_tells_assigned hs ha _ rfl fun p hp => hs.parts h p ?_
      rw [ha]
      exact hp
  · exact ⟨hs, Tells.refl s⟩

theorem telling_report (hs : WellFormed s) {d : Diagnostic} (hd : FoundWhileResolving d) :
    Telling module s (report d : Run σ Unit) fun _ _ => True :=
  ⟨⟨⟨⟨hs.coherent, hs.registered, hs.parts, hs.below, hs.keyBuilt, hs.declared⟩, hs.placed⟩,
    ⟨Nat.le_refl _, fun _ a ha => ⟨a, ha⟩, fun _ => List.prefix_refl _,
      ⟨[d], rfl, by simpa using hd⟩, fun _ _ hr => .inl hr⟩⟩, trivial⟩

/-! ## 4. Defining

Function by function, in the order of the calls. -/

section

variable (task : Task σ) {declare : Ref → Run σ Handle} {define : Handle → Run σ Unit}

/-- How aggregates are defined: whatever is marked by it is told. -/
def DefinesTelling (module : String) (define : Handle → Run σ Unit) : Prop :=
  ∀ (s : State σ) (h : Handle), WellFormed s → Telling module s (define h) fun _ _ => True

variable (hdeclare : Declares declare) (hdefine : DefinesTelling task.module define)

section

include hdefine

/-- What a part embeds is defined, or is left alone. -/
theorem telling_defineValue (hs : WellFormed s) (h : Handle) :
    Telling task.module s (defineValue define h) fun _ _ => True := by
  unfold defineValue
  refine telling_get_bind ?_
  simp only
  split
  · split
    · exact hdefine s _ hs
    · exact telling_pure hs trivial
  · exact telling_pure hs trivial

include hdeclare

theorem telling_definePart (hs : WellFormed s) (ref : Ref) :
    Telling task.module s (definePart declare define ref) InGraph := by
  unfold definePart
  refine telling_bind (hdeclare s ref hs).telling ?_
  rintro h s₁ hs₁ - ⟨hlt, -⟩
  refine telling_bind (telling_defineValue task hdefine hs₁ h) ?_
  intro _ s₂ hs₂ ht₂ _
  exact telling_pure hs₂ (Nat.lt_of_lt_of_le hlt ht₂.count)

/-- By induction on the bases that are left. -/
theorem telling_defineBases (hs : WellFormed s) (owner : Handle) (bases : List BaseShape) :
    Telling task.module s (defineBases declare define owner bases) fun _ _ => True := by
  induction bases generalizing s with
  | nil => exact telling_pure hs trivial
  | cons b rest ih =>
    refine telling_bind (telling_definePart task hdeclare hdefine hs b.type) ?_
    intro type s₁ hs₁ _ htype
    refine telling_bind (telling_changeGraph hs₁ htype (fun _ => rfl) ?_) ?_
    · intro a p hp
      simp only [Instance.mem_parts_iff, Instance.valueParts, Instance.referenceParts] at hp ⊢
      grind
    · intro _ s₂ hs₂ _ _
      exact ih hs₂

/-- By induction on the fields that are left. -/
theorem telling_defineFields (hs : WellFormed s) (owner : Handle) (fields : List FieldShape) :
    Telling task.module s (defineFields declare define owner fields) fun _ _ => True := by
  induction fields generalizing s with
  | nil => exact telling_pure hs trivial
  | cons f rest ih =>
    refine telling_bind (telling_definePart task hdeclare hdefine hs f.type) ?_
    intro type s₁ hs₁ _ htype
    refine telling_bind (telling_changeGraph hs₁ htype (fun _ => rfl) ?_) ?_
    · intro a p hp
      simp only [Instance.mem_parts_iff, Instance.valueParts, Instance.referenceParts] at hp ⊢
      grind
    · intro _ s₂ hs₂ _ _
      exact ih hs₂

end

/-- Parts that do not fit are marked and reported at once. -/
theorem telling_checkLayout (hs : WellFormed s) (h : Handle) :
    Telling task.module s (checkLayout task h) fun _ _ => True := by
  unfold checkLayout
  refine telling_get_bind ?_
  split
  · rename_i a ha
    split
    · exact telling_pure hs trivial
    · rename_i fault _
      refine telling_bind (steps_keyOf hs h).telling ?_
      rintro key _ hs - ⟨rfl, hkey⟩
      refine telling_bind (steps_needWritable hs fault.isWritable).telling ?_
      rintro _ _ hs - ⟨rfl, -⟩
      refine ⟨wellFormed_tells_marked hs fault.message
        [(TypeProblem.invalidLayout fault.message).diagnostic (key.text task.module) task.module]
        ⟨⟨a, ha⟩, .inr ⟨key, hkey, ?_⟩⟩ ?_, trivial⟩
      · exact List.mem_append_right _ (List.mem_singleton_self _)
      · simp [FoundWhileResolving, TypeProblem.diagnostic, TypeProblem.kind]
  · exact telling_pure hs trivial

/-- An aggregate that a cycle comes through is marked for it. -/
theorem telling_meetCycle (hs : WellFormed s) {h : Handle} {a : Aggregate}
    (ha : s.graph.get h = .aggregate a) (path : List Key) :
    Telling task.module s (meetCycle task h path) fun _ _ => True := by
  unfold meetCycle
  refine telling_bind (telling_markInvalid hs ha ⟨_, rfl⟩) ?_
  intro _ s₁ hs₁ _ _
  refine telling_bind (telling_finalize hs₁ h) ?_
  intro _ s₂ hs₂ _ _
  refine telling_bind (steps_keyOf hs₂ h).telling ?_
  intro key s₃ hs₃ _ _
  split
  · refine telling_report hs₃ ?_
    simp [FoundWhileResolving, TypeProblem.diagnostic, TypeProblem.kind]
  · exact telling_throw hs₃ _ _

/-- What a run from a later state tells, seen from the earlier one. -/
theorem Telling.after {run : Run σ α} {Q : α → State σ → Prop} (ht : Tells module s s')
    (hrun : Telling module s' run Q) : Ensures run s'
      (fun a t => (WellFormed t ∧ Tells module s t) ∧ Q a t)
      fun _ t => WellFormed t ∧ Tells module s t :=
  Ensures.mono hrun (fun _ _ ⟨⟨hw, htt⟩, ha⟩ => ⟨⟨hw, ht.trans htt⟩, ha⟩)
    fun _ _ ⟨hw, htt⟩ => ⟨hw, ht.trans htt⟩

include hdeclare hdefine

theorem telling_defineBody (hs : WellFormed s) (h : Handle) (shape : Shape) :
    Telling task.module s (defineBody task declare define h shape) fun _ _ => True := by
  unfold defineBody
  refine telling_bind (telling_defineBases task hdeclare hdefine hs h shape.bases) ?_
  intro _ s₁ hs₁ _ _
  refine telling_bind (telling_defineFields task hdeclare hdefine hs₁ h shape.fields) ?_
  intro _ s₂ hs₂ _ _
  exact telling_checkLayout task hs₂ h

/-- A cycle that is met marks the aggregate where it is. -/
theorem telling_defineCaught (hs : WellFormed s) {h : Handle} {a : Aggregate}
    (ha : s.graph.get h = .aggregate a) (shape : Shape) :
    Telling task.module s (defineCaught task declare define h shape) fun _ _ => True := by
  have hbody := telling_defineBody task hdeclare hdefine hs h shape
  unfold Telling Ensures defineCaught
  cases hr : defineBody task declare define h shape s with
  | ok _ t =>
    obtain ⟨⟨hw, ht⟩, -⟩ := hbody.of_ok hr
    exact (telling_finalize hw h).after ht
  | error e t =>
    obtain ⟨hw, ht⟩ := hbody.of_error hr
    cases e with
    | valueCycle path =>
      obtain ⟨a', ha'⟩ := ht.aggregate h a ha
      exact (telling_meetCycle task hw ha' path).after ht
    | _ => exact ⟨hw, ht⟩

omit hdeclare hdefine in
/-- Which aggregates are being defined is of no account for marks. -/
theorem telling_whileDefining {run : Run σ Unit} (h : Handle) (hs : WellFormed s)
    (hrun : Telling module { s with defining := s.defining ++ [h] } run fun _ _ => True) :
    Telling module s (whileDefining h run) fun _ _ => True := by
  obtain ⟨-, hentered⟩ := wellFormed_tells_of_eq module hs
    { s with defining := s.defining ++ [h] } rfl
  unfold Telling Ensures whileDefining
  cases hr : run { s with defining := s.defining ++ [h] } with
  | ok _ t =>
    obtain ⟨⟨hw, ht⟩, -⟩ := hrun.of_ok hr
    obtain ⟨hw', hleft⟩ := wellFormed_tells_of_eq module hw
      { t with defining := t.defining.dropLast } rfl
    exact ⟨⟨hw', (hentered.trans ht).trans hleft⟩, trivial⟩
  | error e t =>
    obtain ⟨hw, ht⟩ := hrun.of_error hr
    obtain ⟨hw', hleft⟩ := wellFormed_tells_of_eq module hw
      { t with defining := t.defining.dropLast } rfl
    exact ⟨hw', (hentered.trans ht).trans hleft⟩

omit hdeclare hdefine in
/-- Only aggregates were placed with a shape. -/
theorem telling_takeShape (hs : WellFormed s) (h : Handle) :
    Telling module s (takeShape h : Run σ Shape) fun _ s' =>
      ∃ a, s'.graph.get h = .aggregate a := by
  unfold takeShape
  refine telling_get_bind ?_
  split
  · exact telling_throw hs _ _
  · rename_i shape hshape
    split
    · exact telling_throw hs _ _
    · exact ⟨wellFormed_tells_of_eq _ hs _ rfl, (hs.placed h).mp ⟨shape, hshape⟩⟩

/-- One aggregate, with those inside it as the hypothesis. -/
theorem definesTelling_defineOnce :
    DefinesTelling task.module (defineOnce task declare define) := by
  intro s h hs
  have hbody : ∀ s, WellFormed s → Telling task.module s (do
      let shape ← takeShape h
      whileDefining h (defineCaught task declare define h shape)) fun _ _ => True := by
    intro s hs
    refine telling_bind (telling_takeShape hs h) ?_
    rintro shape s₁ hs₁ - ⟨a, ha⟩
    have hentered := (wellFormed_tells_of_eq task.module hs₁
      { s₁ with defining := s₁.defining ++ [h] } rfl).1
    exact telling_whileDefining h hs₁
      (telling_defineCaught task hdeclare hdefine hentered ha shape)
  unfold defineOnce
  refine telling_get_bind ?_
  split
  · unfold cycleFrom
    refine telling_bind (P := fun _ _ => True)
      (telling_get_bind ((steps_keysOf _ hs).telling.mono fun _ _ _ _ => trivial)) ?_
    intro path s₁ hs₁ _ _
    exact telling_bind (telling_throw hs₁ _ fun _ _ => True) fun _ t ht _ _ => hbody t ht
  · exact hbody s hs

omit hdeclare hdefine in
/-- **Defining tells what it marks**, however many aggregates may be inside each other. -/
theorem definesTelling_define (depth n : Nat) :
    DefinesTelling task.module (NativeTypes.Resolver.define task depth n) := by
  induction n with
  | zero => exact fun s h hs => telling_throw hs _ _
  | succ n ih => exact definesTelling_defineOnce task (declares_declare task depth) ih

omit hdeclare hdefine in
/-- By induction on the steps that are left to the worklist. -/
theorem telling_drain (depth n : Nat) (hs : WellFormed s) :
    Telling task.module s (drain task depth n) fun _ _ => True := by
  induction n generalizing s with
  | zero =>
    unfold drain
    refine telling_get_bind ?_
    split
    · exact telling_throw hs _ _
    · exact telling_pure hs trivial
  | succ n ih =>
    unfold drain
    refine telling_get_bind ?_
    split
    · exact telling_pure hs trivial
    · rename_i h rest _
      refine telling_bind (P := fun _ _ => True) ⟨wellFormed_tells_of_eq _ hs _ rfl, trivial⟩ ?_
      intro _ s₁ hs₁ _ _
      refine telling_get_bind ?_
      split
      · exact telling_bind (definesTelling_define task depth depth s₁ h hs₁)
          fun _ s₂ hs₂ _ _ => ih hs₂
      · exact ih hs₁

end

/-! ## 5. Requests -/

variable {task : Task σ}

/-- A request declares something and defines what waits. -/
theorem Steps.telling_drained {run : Run σ α} {Q : α → State σ → Prop} (hrun : Steps s run Q)
    (depth n : Nat) :
    Telling task.module s (do
      let a ← run
      drain task depth n
      return a) fun _ _ => True := by
  refine telling_bind hrun.telling ?_
  intro a s₁ hs₁ _ _
  refine telling_bind (telling_drain task depth n hs₁) ?_
  intro _ s₂ hs₂ _ _
  exact telling_pure hs₂ trivial

/-- **Requests tell what they mark**, however many there were. -/
theorem Reached.tells (h : Reached task s) :
    ∃ session, Tells task.module (State.start session) s := by
  induction h with
  | start session => exact ⟨session, .refl _⟩
  | @resolve _ _ limits ref _ hs hrun ih =>
    obtain ⟨session, ht⟩ := ih
    have hsteps := declares_declare task limits.depth _ ref hs.settled.toWellFormed
    exact ⟨session, ht.trans ((hsteps.telling_drained _ _).of_ok hrun).1.2⟩
  | @resolveAll _ _ limits refs _ hs hrun ih =>
    obtain ⟨session, ht⟩ := ih
    have hsteps := steps_declareAll (declares_declare task limits.depth) refs
      hs.settled.toWellFormed
    exact ⟨session, ht.trans ((hsteps.telling_drained _ _).of_ok hrun).1.2⟩

/-- Every mark between requests is told. -/
theorem Reached.told (h : Reached task s) {x : Handle} {reason : String}
    (hr : s.registry.invalid.get? x = some reason) : Told task.module s x reason := by
  obtain ⟨session, ht⟩ := h.tells
  rcases ht.marks x reason hr with hstart | htold
  · cases hstart
  · exact htold

/-- What is invalid is an aggregate. -/
theorem Reached.aggregate_of_invalid (h : Reached task s) {x : Handle}
    (hx : s.registry.isInvalid x = true) : ∃ a, s.graph.get x = .aggregate a := by
  obtain ⟨reason, hr⟩ := (Registry.isInvalid_iff _ _).mp hx
  exact (h.told hr).aggregate

/-- A resolver finds problems of its own kinds only. -/
theorem Reached.foundWhileResolving (h : Reached task s) :
    ∀ d ∈ s.diagnostics, FoundWhileResolving d := by
  obtain ⟨session, ht⟩ := h.tells
  obtain ⟨ds, hds, hfound⟩ := ht.diagnostics
  rw [hds]
  exact hfound

/-- Some diagnostic says why an instance is invalid: it lies on a ring of types that contain each
other by value, which is reported, or its layout is, under its key. -/
inductive Blamed (module : String) (s : State σ) (diagnostics : List Diagnostic) (h : Handle) :
    Prop
  | cycle (ring : List Handle) : Ring s ring → h ∈ ring →
      ringReport module s.registry ring ∈ diagnostics → Blamed module s diagnostics h
  | layout (d : Diagnostic) : d ∈ diagnostics → d.kind = .invalidLayout →
      d.subject = s.registry.keyText module h → Blamed module s diagnostics h

theorem Blamed.mono {ds ds' : List Diagnostic} {h : Handle} (hb : Blamed module s ds h)
    (hds : ds ⊆ ds') : Blamed module s ds' h := by
  cases hb with
  | cycle ring hring hmem hreport => exact .cycle ring hring hmem (hds hreport)
  | layout d hd hkind hsubject => exact .layout d (hds hd) hkind hsubject

/-- **What is invalid is reported**, between requests: by its key or on a cycle. -/
theorem Reached.blamed (h : Reached task s) {x : Handle} (hx : s.registry.isInvalid x = true) :
    Blamed task.module s s.diagnostics x := by
  obtain ⟨reason, hr⟩ := (Registry.isInvalid_iff _ _).mp hx
  have htold := h.told hr
  cases h.settled.explained.marks x reason hr with
  | pending hmem => cases hmem
  | ring ring hring hmem hreport => exact .cycle ring hring hmem hreport
  | layout fault =>
    rcases htold.reported with ⟨path, hpath⟩ | ⟨key, hkey, hmem⟩
    · exact absurd hpath (LayoutFault.message_ne fault path)
    · exact .layout _ hmem rfl (by rw [Registry.keyText, hkey]; rfl)

end NativeTypes.Resolver
