/-
NativeTypes.Proofs.Resolver.Requests — requests that return and requests that
stop.

Between two requests a resolver may have stopped anywhere. For what it knows of
its source, of references and of keys it does not matter where: a request is a
row of moves (`Moved`), each of which declares one reference, whether that
returns or stops, or defines something and leaves what is known alone. So what
every declaration keeps every request keeps (`requested_keeps`), and with it
any number of requests (`Requests`).

Where a request stops it leaves its state as it was at that moment, with
aggregates that are half defined and queues that are half drained. An invariant
about these would have to hold at every step of defining. The invariants that
are about what is `known` have nothing to do with them, and need not be shown
again for each function of the define phase: the phase is gone through once,
here, and all of it besides its declarations is `Silent`.

The last section applies this for the first time. Every instance that is found
goes back to its source (`Attempted.sourced`), so every key that was registered
can be written, and the list of instances exists (`Reached.instances?_eq`).
-/
import NativeTypes.Proofs.Resolver.Reported

namespace NativeTypes.Resolver

variable {σ : Type} {α β : Type}

/-! ## 1. Moves

A run is put together from moves as it is put together from its parts: the lemmas `moves_pure`,
`moves_throw`, `moves_modify` and `moves_bind` follow the constructors of a run. -/

/-- What a resolver knows: the answers it was given, the instances of references, who has which
key, the typedefs that are open, and the shapes of aggregates. -/
def known (s : State σ) :=
  (s.session, s.shapes, s.declared, s.registry.byKey, s.registry.keys, s.openAliases, s.placed)

/-- Keys are among what is known. -/
theorem keys_of_known {s s' : State σ} (h : known s' = known s) :
    (∀ key, s'.registry.get? key = s.registry.get? key) ∧
      ∀ x, s'.registry.keyOf? x = s.registry.keyOf? x := by
  simp only [known, Prod.mk.injEq] at h
  obtain ⟨-, -, -, hbyKey, hkeys, -⟩ := h
  exact ⟨fun key => by rw [Registry.get?, hbyKey, Registry.get?],
    fun x => by rw [Registry.keyOf?, Registry.keysOf, hkeys, Registry.keyOf?, Registry.keysOf]⟩

/-- Nothing becomes known: an aggregate changes, or something is reported that is not about a
placeholder. -/
structure Silent (s s' : State σ) : Prop where
  known_eq : known s' = known s
  count : s'.graph.count = s.graph.count
  get : ∀ h, s'.graph.get h = s.graph.get h ∨
    (∃ a, s.graph.get h = .aggregate a) ∧ ∃ a, s'.graph.get h = .aggregate a
  diagnostics : ∃ ds, s'.diagnostics = s.diagnostics ++ ds ∧ ∀ d ∈ ds, d.kind ≠ .unresolvable

namespace Silent

variable {s s' : State σ}

/-- Instances and diagnostics stay. -/
theorem of_eq (hknown : known s' = known s) (hgraph : s'.graph = s.graph)
    (hdiagnostics : s'.diagnostics = s.diagnostics) : Silent s s' :=
  ⟨hknown, by rw [hgraph], fun _ => .inl (by rw [hgraph]), [], by simp [hdiagnostics], by simp⟩

/-- An aggregate is replaced by another one. -/
theorem set {owner : Handle} {a : Aggregate} (ha : s.graph.get owner = .aggregate a)
    (b : Aggregate) : Silent s { s with graph := s.graph.set owner (.aggregate b) } := by
  refine ⟨rfl, Graph.count_set _ _ _, fun h => ?_, [], by simp, by simp⟩
  have hget := Graph.get_set (Graph.lt_count_of_aggregate ha) (.aggregate b) h
  by_cases hh : h = owner
  · exact .inr ⟨⟨a, hh ▸ ha⟩, b, hget.trans (if_pos hh)⟩
  · exact .inl (hget.trans (if_neg hh))

/-- An aggregate takes a part on, or refuses it. -/
theorem changeGraph (s : State σ) (owner : Handle) (add : Aggregate → Aggregate) :
    Silent s { s with graph := (s.graph.change owner add).toOption.getD s.graph } := by
  unfold Graph.change
  split
  · rename_i a ha
    split
    · exact .of_eq rfl rfl rfl
    · exact .set ha _
  · exact .of_eq rfl rfl rfl

/-- An aggregate takes no further parts. -/
theorem finalize (s : State σ) (owner : Handle) :
    Silent s { s with graph := s.graph.finalize owner } := by
  unfold Graph.finalize
  split
  · rename_i a ha
    split
    · exact .of_eq rfl rfl rfl
    · exact .set ha _
  · exact .of_eq rfl rfl rfl

/-- Something is reported that is not about a placeholder. -/
theorem reported {d : Diagnostic} (hd : d.kind ≠ .unresolvable) (hknown : known s' = known s)
    (hgraph : s'.graph = s.graph) (hdiagnostics : s'.diagnostics = s.diagnostics ++ [d]) :
    Silent s s' :=
  ⟨hknown, by rw [hgraph], fun _ => .inl (by rw [hgraph]), [d], hdiagnostics, by simpa using hd⟩

/-- What a resolver knows says why it finds an instance, and it knows the same as before. -/
theorem sourced (h : Silent s s') (hs : Sourced s) : Sourced s' := by
  obtain ⟨hget, hkeyOf⟩ := keys_of_known h.known_eq
  have hknown := h.known_eq
  simp only [known, Prod.mk.injEq] at hknown
  obtain ⟨-, hshapes, hdeclared, -⟩ := hknown
  obtain ⟨ds, hds, -⟩ := h.diagnostics
  have hlater : Later s s' := {
    count := Nat.le_of_eq h.count.symm
    get := fun x _ => h.get x
    keys := fun x key hk => (hkeyOf x).trans hk
    shapes := fun ref answer ha => by rw [hshapes, ha]
    diagnostics := fun d hd => hds ▸ List.mem_append_left ds hd
    declared := fun ref hr => by rw [hdeclared, hr] }
  refine hs.later hlater (fun e x hx => .inl ?_) fun key x hx => .inl (hget key ▸ hx)
  cases e with
  | key key => exact (hget key).symm.trans hx
  | ref ref => exact (hdeclared ▸ hx : s.declared.get? ref = some x)

end Silent

/-- One move: a reference is declared, or nothing becomes known. -/
inductive Move (declare : Ref → Run σ Handle) (s s' : State σ) : Prop
  | declared {ref : Ref} {h : Handle} : WellFormed s → declare ref s = .ok h s' →
      Move declare s s'
  | stopped {ref : Ref} {e : Stop} : WellFormed s → declare ref s = .error e s' →
      Move declare s s'
  | silent : Silent s s' → Move declare s s'

/-- Moves one after the other. -/
def Moved (declare : Ref → Run σ Handle) (s s' : State σ) : Prop :=
  Relation.ReflTransGen (Move declare) s s'

/-- A run is a row of moves, whether it returns or stops. -/
def Moves (declare : Ref → Run σ Handle) (s : State σ) (run : Run σ α) : Prop :=
  Ensures run s (fun _ s' => Moved declare s s') fun _ s' => Moved declare s s'

section

variable {declare : Ref → Run σ Handle} {s s' : State σ} {m : String}

theorem moves_pure (a : α) : Moves declare s (pure a) := Relation.ReflTransGen.refl

theorem moves_throw (e : Stop) : Moves declare s (throw e : Run σ α) :=
  Relation.ReflTransGen.refl

theorem moves_get_bind {next : State σ → Run σ β} (hnext : Moves declare s (next s)) :
    Moves declare s (get >>= next) :=
  hnext

theorem moves_modify {f : State σ → State σ} (hf : Silent s (f s)) :
    Moves declare s (modify f : Run σ PUnit) :=
  Relation.ReflTransGen.single (.silent hf)

/-- What a run does from a state that nothing new is known in. -/
theorem Moves.after {run : Run σ α} (hrun : Moves declare s' run) (h : Silent s s') :
    Ensures run s' (fun _ t => Moved declare s t) fun _ t => Moved declare s t :=
  Ensures.mono hrun (fun _ _ ht => ht.head (.silent h)) fun _ _ ht => ht.head (.silent h)

theorem moves_modify_bind {f : State σ → State σ} {next : PUnit → Run σ β}
    (hf : Silent s (f s)) (hnext : Moves declare (f s) (next ⟨⟩)) :
    Moves declare s (modify f >>= next) :=
  hnext.after hf

/-- A run after another. What the first one tells of its result is known to the second. -/
theorem moves_bind {run : Run σ α} {next : α → Run σ β} {P : α → State σ → Prop}
    (htelling : Telling m s run P) (hrun : Moves declare s run)
    (hnext : ∀ a s', WellFormed s' → P a s' → Moves declare s' (next a)) :
    Moves declare s (run >>= next) := by
  unfold Moves Ensures at hrun ⊢
  cases hr : run s with
  | ok a t =>
    rw [hr] at hrun
    rw [run_bind_ok hr]
    obtain ⟨⟨ht, -⟩, ha⟩ := htelling.of_ok hr
    exact (hnext a t ht ha).mono (fun _ _ h => hrun.trans h) fun _ _ h => hrun.trans h
  | error e t =>
    rw [hr] at hrun
    rw [run_bind_error hr]
    exact hrun

/-- A declaration is one move, of the first or the second kind. -/
theorem moves_declare (hs : WellFormed s) (ref : Ref) : Moves declare s (declare ref) := by
  unfold Moves Ensures
  cases hr : declare ref s with
  | ok h t => exact .single (.declared hs hr)
  | error e t => exact .single (.stopped hs hr)

theorem moves_keyOf (h : Handle) : Moves declare s (keyOf h) := by
  unfold keyOf
  refine moves_get_bind ?_
  split
  · exact moves_pure _
  · exact moves_throw _

theorem moves_keysOf (hs : WellFormed s) (handles : List Handle) :
    Moves declare s (keysOf handles) := by
  induction handles with
  | nil => exact moves_pure _
  | cons h rest ih =>
    refine moves_bind (m := "") (steps_keyOf hs h).telling (moves_keyOf h) ?_
    rintro key _ - ⟨rfl, -⟩
    refine moves_bind (m := "") (steps_keysOf rest hs).telling ih ?_
    intro keys s₁ _ _
    exact moves_pure _

theorem moves_needWritable (writable : Bool) :
    Moves declare s (needWritable writable : Run σ Unit) := by
  unfold needWritable
  split
  · exact moves_pure _
  · exact moves_throw _

/-! ## 2. Defining

The define phase function by function, in the order of the calls. None of the proofs says what a
function computes; each says that it declares, or changes an aggregate, or reports. -/

variable (task : Task σ) {define : Handle → Run σ Unit}

theorem moves_checkLayout (hs : WellFormed s) (h : Handle) :
    Moves declare s (checkLayout task h) := by
  unfold checkLayout
  refine moves_get_bind ?_
  split
  · split
    · exact moves_pure _
    · refine moves_bind (m := task.module) (steps_keyOf hs h).telling (moves_keyOf h) ?_
      rintro key _ - ⟨rfl, -⟩
      refine moves_bind (m := task.module) (steps_needWritable hs _).telling
        (moves_needWritable _) ?_
      rintro _ _ - ⟨rfl, -⟩
      exact .single (.silent (.reported (by simp [TypeProblem.diagnostic, TypeProblem.kind])
        rfl rfl rfl))
  · exact moves_pure _

theorem moves_meetCycle (h : Handle) (path : List Key) :
    Moves declare s (meetCycle task h path) := by
  unfold meetCycle
  refine moves_modify_bind (.of_eq rfl rfl rfl) (moves_modify_bind (.finalize _ h) ?_)
  unfold keyOf
  rw [bind_assoc]
  refine moves_get_bind ?_
  split
  · rw [pure_bind]
    split
    · exact moves_modify (.reported (by simp [TypeProblem.diagnostic, TypeProblem.kind])
        rfl rfl rfl)
    · exact moves_throw _
  · exact moves_throw _

variable (hdeclare : Declares declare) (hdefine : DefinesTelling task.module define)
  (hmoves : ∀ (s : State σ) (h : Handle), WellFormed s → Moves declare s (define h))

section

include hmoves

/-- Values are defined at once, behind the arrays around them. -/
theorem moves_defineValue (hs : WellFormed s) (h : Handle) :
    Moves declare s (defineValue define h) := by
  unfold defineValue
  refine moves_get_bind ?_
  simp only
  split
  · split
    · exact hmoves s _ hs
    · exact moves_pure _
  · exact moves_pure _

include hdeclare hdefine

theorem moves_definePart (hs : WellFormed s) (ref : Ref) :
    Moves declare s (definePart declare define ref) := by
  unfold definePart
  refine moves_bind (m := task.module) (hdeclare s ref hs).telling (moves_declare hs ref) ?_
  intro h s₁ hs₁ _
  refine moves_bind (telling_defineValue task hdefine hs₁ h) (moves_defineValue hmoves hs₁ h) ?_
  intro _ s₂ _ _
  exact moves_pure _

theorem moves_defineBases (hs : WellFormed s) (owner : Handle) (bases : List BaseShape) :
    Moves declare s (defineBases declare define owner bases) := by
  induction bases generalizing s with
  | nil => exact moves_pure _
  | cons b rest ih =>
    refine moves_bind (telling_definePart task hdeclare hdefine hs b.type)
      (moves_definePart task hdeclare hdefine hmoves hs b.type) ?_
    intro type s₁ hs₁ htype
    have hadd : ∀ a, ∀ p ∈ (Instance.aggregate { a with
        bases := a.bases ++ [(⟨type, b.offset, b.isTruth⟩ : BasePart)] }).parts,
        p ∈ (Instance.aggregate a).parts ∨ p = (type, true) := by
      intro a p hp
      simp only [Instance.mem_parts_iff, Instance.valueParts, Instance.referenceParts] at hp ⊢
      grind
    refine moves_bind (m := task.module) (telling_changeGraph hs₁ htype (fun _ => rfl) hadd)
      (moves_modify (.changeGraph _ owner _)) ?_
    intro _ s₂ hs₂ _
    exact ih hs₂

theorem moves_defineFields (hs : WellFormed s) (owner : Handle) (fields : List FieldShape) :
    Moves declare s (defineFields declare define owner fields) := by
  induction fields generalizing s with
  | nil => exact moves_pure _
  | cons f rest ih =>
    refine moves_bind (telling_definePart task hdeclare hdefine hs f.type)
      (moves_definePart task hdeclare hdefine hmoves hs f.type) ?_
    intro type s₁ hs₁ htype
    have hadd : ∀ a, ∀ p ∈ (Instance.aggregate { a with fields := a.fields ++
        [(⟨f.name, type, f.offset, f.bitOffset, f.bitWidth, f.isTruth⟩ : FieldPart)] }).parts,
        p ∈ (Instance.aggregate a).parts ∨ p = (type, true) := by
      intro a p hp
      simp only [Instance.mem_parts_iff, Instance.valueParts, Instance.referenceParts] at hp ⊢
      grind
    refine moves_bind (m := task.module) (telling_changeGraph hs₁ htype (fun _ => rfl) hadd)
      (moves_modify (.changeGraph _ owner _)) ?_
    intro _ s₂ hs₂ _
    exact ih hs₂

/-- The bases and then the fields. -/
theorem moves_defineBody (hs : WellFormed s) (h : Handle) (shape : Shape) :
    Moves declare s (defineBody task declare define h shape) := by
  unfold defineBody
  refine moves_bind (telling_defineBases task hdeclare hdefine hs h shape.bases)
    (moves_defineBases task hdeclare hdefine hmoves hs h shape.bases) ?_
  intro _ s₁ hs₁ _
  refine moves_bind (telling_defineFields task hdeclare hdefine hs₁ h shape.fields)
    (moves_defineFields task hdeclare hdefine hmoves hs₁ h shape.fields) ?_
  intro _ s₂ hs₂ _
  exact moves_checkLayout task hs₂ h

/-- A failure is reported, and the aggregate made an invalid one. -/
theorem moves_defineCaught (hs : WellFormed s) (h : Handle) (shape : Shape) :
    Moves declare s (defineCaught task declare define h shape) := by
  have hbody := moves_defineBody task hdeclare hdefine hmoves hs h shape
  unfold Moves Ensures defineCaught
  cases hr : defineBody task declare define h shape s with
  | ok _ t => exact (hbody.of_ok hr).tail (.silent (.finalize t h))
  | error e t =>
    have ht := hbody.of_error hr
    cases e with
    | valueCycle path =>
      exact Ensures.mono (moves_meetCycle task h path) (fun _ _ hm => ht.trans hm)
        fun _ _ hm => ht.trans hm
    | _ => exact ht

end

theorem moves_takeShape (h : Handle) : Moves declare s (takeShape h : Run σ Shape) := by
  unfold takeShape
  refine moves_get_bind ?_
  split
  · exact moves_throw _
  · split
    · exact moves_throw _
    · exact .single (.silent (.of_eq rfl rfl rfl))

theorem moves_whileDefining {run : Run σ Unit} (h : Handle)
    (hrun : Moves declare { s with defining := s.defining ++ [h] } run) :
    Moves declare s (whileDefining h run) := by
  unfold Moves Ensures whileDefining
  have hrun := hrun.after (s := s) (.of_eq rfl rfl rfl)
  cases hr : run { s with defining := s.defining ++ [h] } with
  | ok _ t => exact (hrun.of_ok hr).tail (.silent (.of_eq rfl rfl rfl))
  | error e t => exact (hrun.of_error hr).tail (.silent (.of_eq rfl rfl rfl))

include hdeclare hdefine hmoves in
/-- One aggregate, with those inside it as the hypothesis `hmoves`. -/
theorem moves_defineOnce (hs : WellFormed s) (h : Handle) :
    Moves declare s (defineOnce task declare define h) := by
  have hbody : ∀ s, WellFormed s → Moves declare s (do
      let shape ← takeShape h
      whileDefining h (defineCaught task declare define h shape)) := by
    intro s hs
    refine moves_bind (m := task.module) (telling_takeShape hs h) (moves_takeShape h) ?_
    intro shape s₁ hs₁ _
    refine moves_whileDefining h (moves_defineCaught task hdeclare hdefine hmoves ?_ h shape)
    exact (wellFormed_tells_of_eq task.module hs₁ { s₁ with defining := s₁.defining ++ [h] } rfl).1
  unfold defineOnce
  refine moves_get_bind ?_
  split
  · unfold cycleFrom
    refine moves_bind (m := task.module) (P := fun _ _ => True)
      (telling_get_bind ((steps_keysOf _ hs).telling.mono fun _ _ _ _ => trivial))
      (moves_get_bind (moves_keysOf hs _)) ?_
    intro path s₁ hs₁ _
    exact moves_bind (m := task.module) (telling_throw hs₁ _ fun _ _ => True)
      (moves_throw _) fun _ t ht _ => hbody t ht
  · exact hbody s hs

end

variable (task : Task σ) {s s' : State σ}

/-- By induction on how deeply values lie inside each other. -/
theorem moves_define (depth n : Nat) (h : Handle) (hs : WellFormed s) :
    Moves (declare task depth) s (define task depth n h) := by
  induction n generalizing s h with
  | zero => exact moves_throw _
  | succ n ih =>
    exact moves_defineOnce task (declares_declare task depth) (definesTelling_define task depth n)
      (fun s h hs => ih h hs) hs h

/-- By induction on what the queue may still lead to. -/
theorem moves_drain (depth n : Nat) (hs : WellFormed s) :
    Moves (declare task depth) s (drain task depth n) := by
  induction n generalizing s with
  | zero =>
    unfold drain
    refine moves_get_bind ?_
    split
    · exact moves_throw _
    · exact moves_pure _
  | succ n ih =>
    unfold drain
    refine moves_get_bind ?_
    split
    · exact moves_pure _
    · rename_i h rest _
      have hpopped := (wellFormed_tells_of_eq task.module hs { s with worklist := rest } rfl).1
      refine moves_bind (m := task.module) (P := fun _ _ => True)
        ⟨wellFormed_tells_of_eq _ hs _ rfl, trivial⟩ (moves_modify (.of_eq rfl rfl rfl)) ?_
      intro _ s₁ hs₁ _
      refine moves_get_bind ?_
      split
      · exact moves_bind (definesTelling_define task depth depth s₁ h hs₁)
          (moves_define task depth depth h hs₁) fun _ s₂ hs₂ _ => ih hs₂
      · exact ih hs₁

/-- A request is a row of moves. -/
theorem moves_resolve (limits : Limits) (ref : Ref) (hs : WellFormed s) :
    Moves (declare task limits.depth) s (resolve task limits ref) := by
  unfold resolve
  refine moves_bind (m := task.module)
    (declares_declare task limits.depth s ref hs).telling (moves_declare hs ref) ?_
  intro root s₁ hs₁ _
  refine moves_bind (telling_drain task limits.depth limits.total hs₁)
    (moves_drain task limits.depth limits.total hs₁) ?_
  intro _ s₂ _ _
  exact moves_pure _

theorem moves_declareAll {declare : Ref → Run σ Handle} (hdeclare : Declares declare)
    (refs : List Ref) (hs : WellFormed s) : Moves declare s (declareAll declare refs) := by
  induction refs generalizing s with
  | nil => exact moves_pure _
  | cons ref rest ih =>
    refine moves_bind (m := "") (hdeclare s ref hs).telling (moves_declare hs ref) ?_
    intro h s₁ hs₁ _
    refine moves_bind (m := "") (steps_declareAll hdeclare rest hs₁).telling (ih hs₁) ?_
    intro _ s₂ _ _
    exact moves_pure _

/-- So is one for several references. -/
theorem moves_resolveAll (limits : Limits) (refs : List Ref) (hs : WellFormed s) :
    Moves (declare task limits.depth) s (resolveAll task limits refs) := by
  have hdeclare := declares_declare task limits.depth
  unfold resolveAll
  refine moves_bind (m := task.module) (steps_declareAll hdeclare refs hs).telling
    (moves_declareAll hdeclare refs hs) ?_
  intro roots s₁ hs₁ _
  refine moves_bind (telling_drain task limits.depth limits.total hs₁)
    (moves_drain task limits.depth limits.total hs₁) ?_
  intro _ s₂ _ _
  exact moves_pure _

/-! ## 3. Requests

A request that stopped left some state behind, and the next one starts from there. -/

/-- The run from `s` stops, and why it stops and what it leaves passes a check. -/
def stops (run : Run σ α) (s : State σ) (check : Stop → State σ → Bool) : Bool :=
  match run s with
  | .ok _ _ => false
  | .error e s' => check e s'

/-- The check is made on a run that stopped. -/
theorem exists_of_stops {run : Run σ α} {check : Stop → State σ → Bool}
    (h : stops run s check = true) : ∃ e s', run s = .error e s' ∧ check e s' = true := by
  unfold stops at h
  cases hr : run s with
  | ok a s' =>
    rw [hr] at h
    cases h
  | error e s' =>
    rw [hr] at h
    exact ⟨e, s', rfl, h⟩

/-- What a request leads to, whether it returns or stops. -/
inductive Requested (s s' : State σ) : Prop
  | returned {limits : Limits} {ref : Ref} {root : Handle} :
      resolve task limits ref s = .ok root s' → Requested s s'
  | stopped {limits : Limits} {ref : Ref} {e : Stop} :
      resolve task limits ref s = .error e s' → Requested s s'

/-- Requests one after the other. -/
def Requests (s s' : State σ) : Prop := Relation.ReflTransGen (Requested task) s s'

/-- The states that requests lead to from a start at which the state of the source is valid. -/
def Attempted (valid : σ → Prop) (s : State σ) : Prop :=
  ∃ session, valid session ∧ Requests task (State.start session) s

/-- A request that returned. -/
def Returned (s s' : State σ) : Prop := ∃ limits ref root, resolve task limits ref s = .ok root s'

variable {task}

theorem requests_of_returned (h : Relation.ReflTransGen (Returned task) s s') :
    Requests task s s' := by
  have hle : Returned task ≤ Requested task := fun _ _ ⟨_, _, _, hrun⟩ => .returned hrun
  exact Relation.ReflTransGen.mono hle s s' h

/-- Requests that return lead from one state at rest to the next. -/
theorem reached_of_returned {session : σ}
    (h : Relation.ReflTransGen (Returned task) (State.start session) s) : Reached task s := by
  induction h with
  | refl => exact .start session
  | tail _ hlast ih =>
    obtain ⟨limits, ref, root, hrun⟩ := hlast
    exact .resolve ih hrun

theorem telling_resolve (limits : Limits) (ref : Ref) (hs : WellFormed s) :
    Telling task.module s (resolve task limits ref) fun _ _ => True :=
  (declares_declare task limits.depth s ref hs).telling_drained _ _

/-- A request leads from a well-formed state to one that has grown from it. -/
theorem Requested.wellFormed (h : Requested task s s') (hs : WellFormed s) :
    WellFormed s' ∧ Tells task.module s s' := by
  cases h with
  | returned hrun => exact ((telling_resolve _ _ hs).of_ok hrun).1
  | stopped hrun => exact (telling_resolve _ _ hs).of_error hrun

/-- So do requests. -/
theorem Requests.wellFormed (h : Requests task s s') (hs : WellFormed s) :
    WellFormed s' ∧ Tells task.module s s' := by
  induction h with
  | refl => exact ⟨hs, .refl s⟩
  | tail _ hlast ih =>
    obtain ⟨hw, ht⟩ := hlast.wellFormed ih.1
    exact ⟨hw, ih.2.trans ht⟩

theorem Attempted.wellFormed {valid : σ → Prop} (h : Attempted task valid s) : WellFormed s := by
  obtain ⟨session, -, hs⟩ := h
  exact (hs.wellFormed (settled_start task.module session).toWellFormed).1

/-- What every declaration keeps and nothing silent changes a row of moves keeps. -/
theorem Moved.keeps {I : State σ → Prop} {n : Nat} (hm : Moved (declare task n) s s')
    (hdeclare : ∀ ref s, WellFormed s → I s →
      Ensures (declare task n ref) s (fun _ s' => I s') fun _ s' => I s')
    (hsilent : ∀ s s', Silent s s' → I s → I s') (hs : I s) : I s' := by
  induction hm with
  | refl => exact hs
  | tail _ hlast ih =>
    cases hlast with
    | declared hw hrun => exact (hdeclare _ _ hw ih).of_ok hrun
    | stopped hw hrun => exact (hdeclare _ _ hw ih).of_error hrun
    | silent hchange => exact hsilent _ _ hchange ih

/-- So does a request, whether it returns or stops. -/
theorem requested_keeps {I : State σ → Prop}
    (hdeclare : ∀ n ref s, WellFormed s → I s →
      Ensures (declare task n ref) s (fun _ s' => I s') fun _ s' => I s')
    (hsilent : ∀ s s', Silent s s' → I s → I s') (h : Requested task s s') (hw : WellFormed s)
    (hs : I s) : I s' := by
  cases h with
  | returned hrun =>
    exact ((moves_resolve task _ _ hw).of_ok hrun).keeps (hdeclare _) hsilent hs
  | stopped hrun =>
    exact ((moves_resolve task _ _ hw).of_error hrun).keeps (hdeclare _) hsilent hs

/-- So do requests, one after the other. -/
theorem requests_keep_silent {I : State σ → Prop}
    (hdeclare : ∀ n ref s, WellFormed s → I s →
      Ensures (declare task n ref) s (fun _ s' => I s') fun _ s' => I s')
    (hsilent : ∀ s s', Silent s s' → I s → I s') (h : Requests task s s') (hw : WellFormed s)
    (hs : I s) : I s' := by
  induction h with
  | refl => exact hs
  | tail hfirst hlast ih =>
    exact requested_keeps hdeclare hsilent hlast (Requests.wellFormed hfirst hw).1 ih

/-- So does what is about the known only. -/
theorem requests_keep {I : State σ → Prop}
    (hdeclare : ∀ n ref s, WellFormed s → I s →
      Ensures (declare task n ref) s (fun _ s' => I s') fun _ s' => I s')
    (hsilent : ∀ s s', known s' = known s → I s → I s') (h : Requests task s s')
    (hw : WellFormed s) (hs : I s) : I s' :=
  requests_keep_silent hdeclare (fun s s' hchange => hsilent s s' hchange.known_eq) h hw hs

/-! ## 4. Why instances are found
 -/

/-- Declaring keeps that what is found goes back to the source. -/
theorem sourced_declare (n : Nat) (ref : Ref) (hw : WellFormed s) (hs : Sourced s) :
    Ensures (declare task n ref) s (fun _ s' => Sourced s') fun _ s' => Sourced s' :=
  Ensures.mono (declares_declare task n s ref hw) (fun _ _ ⟨_, hg, _⟩ => hg.sourced hs)
    fun _ _ ⟨_, hg, _⟩ => hg.sourced hs

/-- A row of moves leads from sourced states to sourced states. -/
theorem Moved.sourced {n : Nat} (hm : Moved (declare task n) s s') (hs : Sourced s) :
    Sourced s' :=
  hm.keeps (fun ref _ hw ht => sourced_declare n ref hw ht) (fun _ _ h => h.sourced) hs

/-- **Whatever a resolver finds goes back to its source**, after any requests. -/
theorem Attempted.sourced {valid : σ → Prop} (h : Attempted task valid s) : Sourced s := by
  obtain ⟨session, -, hs⟩ := h
  exact requests_keep_silent (fun n ref _ hw ht => sourced_declare n ref hw ht)
    (fun _ _ h => h.sourced) hs (settled_start task.module session).toWellFormed
    (sourced_start session)

/-- So it does between requests for any number of references at a time. -/
theorem Reached.sourced (h : Reached task s) : Sourced s := by
  induction h with
  | start session => exact sourced_start session
  | resolve hr hrun ih =>
    exact ((moves_resolve task _ _ hr.settled.toWellFormed).of_ok hrun).sourced ih
  | resolveAll hr hrun ih =>
    exact ((moves_resolveAll task _ _ hr.settled.toWellFormed).of_ok hrun).sourced ih

/-- So the keys it registers can all be written, and its instances can be listed. -/
theorem Reached.instances?_eq (h : Reached task s) (module : String) :
    s.registry.instances? (Key.text? module) = some (s.registry.instances module) :=
  have hr := h.settled.toWellFormed.coherent
  hr.instances?_eq module fun _ _ hkey => h.sourced.writable_of_keyOf? hr hkey

end NativeTypes.Resolver
