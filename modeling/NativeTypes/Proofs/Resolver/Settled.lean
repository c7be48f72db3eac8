/-
NativeTypes.Proofs.Resolver.Settled — a resolver between two requests.

`Settled` — the state is sound, and nothing waits, is being defined or is open.
Draining the worklist settles a state in which everything that waits is on the
worklist (`settles_drain`), so every request leads from a settled state to a
settled one (`settles_resolveAll`, `settles_resolve`). `Reached` are the states
that requests lead to; `Reached.settled` is the induction over all of them, and
`Quiescent` is what they have in common.

Three invariants are stacked here, one for each loop. `Sound` holds at every
moment, also while aggregates are being defined inside each other. `Draining`
holds between two of them, while the worklist is worked off: it adds that all
that waits is listed, so that an empty list means nothing waits. `Settled`
holds between two requests.

A drain may define an aggregate that is not the first on the list, as part of
that one. It stays on the list, and is taken off later without being defined
again (`Draining.skip`), which is why the list may be longer than what waits.
-/
import NativeTypes.Proofs.Resolver.Define

namespace NativeTypes.Resolver

variable {σ : Type} {α : Type} {s s' : State σ} {module : String} {task : Task σ}

/-! ## 1. Settled states -/

/-- Nothing waits, is being defined or is open. -/
structure Settled (module : String) (s : State σ) : Prop extends Sound module [] s where
  worklist_eq : s.worklist = []
  placeholders_eq : s.placeholders = []
  defining_eq : s.defining = []
  openAliases_eq : s.openAliases = []

/-- A resolver that knows nothing is settled. -/
theorem settled_start (module : String) (session : σ) : Settled module (State.start session) := by
  have hget : ∀ h, (State.start session).graph.get h = .undefined "" := fun h =>
    Graph.get_of_count_le (Nat.zero_le h)
  have hnot : ∀ h a, (State.start session).graph.get h ≠ .aggregate a := by
    intro h a ha
    rw [hget h] at ha
    cases ha
  have hparts : ∀ h, ∀ p ∈ ((State.start session).graph.get h).parts, False := by
    intro h p hp
    rw [hget h] at hp
    exact Instance.not_mem_parts_undefined _ _ hp
  exact {
    coherent := Registry.Coherent.empty
    registered := fun h => ⟨fun hk => (by cases hk), fun hlt => absurd hlt (Nat.not_lt_zero h)⟩
    parts := fun h p hp => (hparts h p hp).elim
    below := fun h _ p hp => (hparts h p hp).elim
    keyBuilt := fun h key hk => by cases hk
    declared := fun ref h hh => by cases hh
    placed := fun h => ⟨fun ⟨_, hp⟩ => (by cases hp), fun ⟨a, ha⟩ => absurd ha (hnot h a)⟩
    nodup := List.nodup_nil
    growing := fun h => ⟨fun ⟨a, ha, _⟩ => absurd ha (hnot h a), fun hh => (by cases hh)⟩
    settled := fun h a ha => absurd ha (hnot h a)
    empty := fun h hh => by cases hh
    nested := List.isChain_nil
    grounded := ⟨fun x y ⟨a, ha, _⟩ => absurd ha (hnot y a),
      fun h ⟨a, ha, _⟩ => absurd ha (hnot h a)⟩
    faithful := fun h a _ ha => absurd ha (hnot h a)
    explained := ⟨Or.inl rfl, fun h reason hr => (by cases hr), fun d hd => (by cases hd)⟩
    worklist_eq := rfl
    placeholders_eq := rfl
    defining_eq := rfl
    openAliases_eq := rfl }

/-- What holds while the worklist is drained: whatever waits is on the worklist. -/
structure Draining (module : String) (s : State σ) : Prop extends Sound module [] s where
  listed : ∀ h ∈ s.placeholders, h ∈ s.worklist
  defining_eq : s.defining = []
  openAliases_eq : s.openAliases = []

/-- What a request declares waits, and is listed. -/
theorem Settled.grow (hs : Settled module s) (hw : WellFormed s') (hg : Grows s s') :
    Draining module s' where
  toSound := hs.toSound.grow hw hg
  listed := by
    obtain ⟨new, hholders, hlist, -⟩ := hg.waiting
    rw [hholders, hlist, hs.placeholders_eq, hs.worklist_eq]
    exact fun _ hh => hh
  defining_eq := hg.defining.trans hs.defining_eq
  openAliases_eq := hg.openAliases.trans hs.openAliases_eq

/-- The worklist is of no account for the rest. -/
theorem Sound.popped (hs : Sound module [] s) (rest : List Handle) :
    Sound module [] { s with worklist := rest } :=
  ⟨⟨⟨hs.coherent, hs.registered, hs.parts, hs.below, hs.keyBuilt, hs.declared⟩, hs.placed⟩,
    ⟨hs.nodup, hs.growing, hs.settled, hs.empty, hs.nested⟩, hs.grounded, hs.faithful,
    { unwound := Or.inl rfl
      marks := fun h reason hr => by
        cases hs.explained.marks h reason hr with
        | pending hmem => cases hmem
        | ring ring hring hmem hreport => exact .ring ring hring hmem hreport
        | layout fault => exact .layout fault
      reports := hs.explained.reports }⟩

/-! ## 2. Draining -/

/-- A run settles the state, or stops for another reason than a cycle. -/
def Settles (module : String) (s : State σ) (run : Run σ α) : Prop :=
  Ensures run s (fun _ s' => Settled module s') fun e _ => e.isCycle = false

/-- An empty list is drained. -/
theorem drain_nil (depth n : Nat) (hlist : s.worklist = []) :
    drain task depth n s = .ok () s := by
  cases n with
  | zero => simp [drain, hlist]
  | succ n => simp [drain, hlist]

/-- The first of the list, and then the rest. -/
theorem drain_cons (depth n : Nat) {h : Handle} {rest : List Handle}
    (hlist : s.worklist = h :: rest) :
    drain task depth (n + 1) s =
      if (s.graph.get h).isFinalized then drain task depth n { s with worklist := rest }
      else (define task depth depth h >>= fun _ => drain task depth n)
        { s with worklist := rest } := by
  rw [drain]
  simp only [run_get_bind, hlist, run_modify_bind]
  cases (s.graph.get h).isFinalized with
  | true => rfl
  | false => rfl

/-- Taking from the worklist what is complete, or no aggregate. -/
theorem Draining.skip (hs : Draining module s) {h : Handle} {rest : List Handle}
    (hlist : s.worklist = h :: rest) (hfinal : (s.graph.get h).isFinalized = true) :
    Draining module { s with worklist := rest } where
  toSound := hs.toSound.popped rest
  listed := fun x hx => by
    have hmem := hs.listed x hx
    rw [hlist] at hmem
    refine (List.mem_cons.mp hmem).resolve_left ?_
    rintro rfl
    have hgrowing := (hs.growing x).mpr (List.mem_append_left _ hx)
    rw [hgrowing.not_finalized] at hfinal
    cases hfinal
  defining_eq := hs.defining_eq
  openAliases_eq := hs.openAliases_eq

/-- Taking from the worklist what still grows, and defining it. -/
theorem draining_define (depth : Nat) (hs : Draining task.module s) {h : Handle}
    {rest : List Handle} (hlist : s.worklist = h :: rest)
    (hfinal : (s.graph.get h).isFinalized = false) :
    Ensures (define task depth depth h) { s with worklist := rest }
      (fun _ s' => Draining task.module s' ∧ Evolves [] { s with worklist := rest } s')
      fun e _ => e.isCycle = false := by
  have hgrowing : IsGrowing s.graph h := by
    cases hget : s.graph.get h with
    | aggregate a =>
      rw [hget] at hfinal
      exact ⟨a, hget, by simpa [Instance.isFinalized, Aggregate.isFinalized] using hfinal⟩
    | _ =>
      rw [hget] at hfinal
      cases hfinal
  have hrun := defines_define task depth depth { s with worklist := rest } h
    (hs.toSound.popped rest) hgrowing (by simp [hs.defining_eq])
  refine Ensures.mono hrun ?_ ?_
  · rintro _ t ⟨ht, he, hd, hcomplete⟩
    refine ⟨⟨ht, ?_, hd.trans hs.defining_eq, he.openAliases.trans hs.openAliases_eq⟩, he⟩
    intro x hx
    rcases he.placeholders x hx with hold | ⟨-, hnew⟩
    · have hmem := hs.listed x hold
      rw [hlist] at hmem
      rcases List.mem_cons.mp hmem with rfl | hmem
      · exact absurd (List.mem_append_left _ hx) (ht.not_growing_of_complete hcomplete)
      · exact he.worklist.subset hmem
    · exact hnew
  · intro e t hstop
    cases e with
    | valueCycle path =>
      -- nothing was being defined, so there is no ring to unwind
      obtain ⟨ring, inner, hu⟩ := hstop path rfl
      obtain ⟨before, head, after, hstretch, -⟩ := hu.stretch
      have hstretch : s.defining = before ++ head :: after := hstretch
      rw [hs.defining_eq] at hstretch
      cases before <;> cases hstretch
    | _ => rfl

/-- With an empty worklist nothing waits. -/
theorem Draining.done (hs : Draining module s) (hlist : s.worklist = []) : Settled module s :=
  { hs with
    worklist_eq := hlist
    placeholders_eq := List.eq_nil_iff_forall_not_mem.mpr fun h hh => by
      have hmem := hs.listed h hh
      rw [hlist] at hmem
      cases hmem }

/-- **Draining settles.** -/
theorem settles_drain (depth n : Nat) (hs : Draining task.module s) :
    Settles task.module s (drain task depth n) := by
  unfold Settles
  induction n generalizing s with
  | zero =>
    cases hlist : s.worklist with
    | nil =>
      unfold Ensures
      rw [drain_nil depth 0 hlist]
      exact hs.done hlist
    | cons h rest => simp [Ensures, drain, hlist, Stop.isCycle]
  | succ n ih =>
    cases hlist : s.worklist with
    | nil =>
      unfold Ensures
      rw [drain_nil depth (n + 1) hlist]
      exact hs.done hlist
    | cons h rest =>
      cases hfinal : (s.graph.get h).isFinalized with
      | true =>
        have hrun : drain task depth (n + 1) s = drain task depth n { s with worklist := rest } :=
          by rw [drain_cons depth n hlist, if_pos hfinal]
        unfold Ensures
        rw [hrun]
        exact ih (hs.skip hlist hfinal)
      | false =>
        have hrun : drain task depth (n + 1) s =
            (define task depth depth h >>= fun _ => drain task depth n)
              { s with worklist := rest } := by
          rw [drain_cons depth n hlist, if_neg (by simp [hfinal])]
        unfold Ensures
        rw [hrun]
        exact ensures_bind (draining_define depth hs hlist hfinal) fun _ t ht => ih ht.1

/-- Draining forgets no reference. -/
theorem declared_of_drain {depth n : Nat} (hs : Draining task.module s)
    (hrun : drain task depth n s = .ok () s') {ref : Ref} {h : Handle}
    (hdeclared : s.declared.get? ref = some h) : s'.declared.get? ref = some h := by
  induction n generalizing s with
  | zero =>
    cases hlist : s.worklist with
    | nil =>
      rw [drain_nil depth 0 hlist] at hrun
      cases hrun
      exact hdeclared
    | cons x rest => simp [drain, hlist] at hrun
  | succ n ih =>
    cases hlist : s.worklist with
    | nil =>
      rw [drain_nil depth (n + 1) hlist] at hrun
      cases hrun
      exact hdeclared
    | cons x rest =>
      rw [drain_cons depth n hlist] at hrun
      cases hfinal : (s.graph.get x).isFinalized with
      | true =>
        rw [if_pos hfinal] at hrun
        exact ih (hs.skip hlist hfinal) hrun hdeclared
      | false =>
        rw [if_neg (by simp [hfinal])] at hrun
        obtain ⟨_, t, hdefine, hrest⟩ := bind_eq_ok hrun
        obtain ⟨ht, he⟩ := (draining_define depth hs hlist hfinal).of_ok hdefine
        exact ih ht hrest (he.declared ref h hdeclared)

/-! ## 3. Requests -/

/-- Whatever is declared first, draining settles. -/
theorem Steps.settles {run : Run σ α} {Q : α → State σ → Prop} (hrun : Steps s run Q)
    (hs : Settled task.module s) (depth n : Nat) :
    Settles task.module s (do
      let a ← run
      drain task depth n
      return a) := by
  refine ensures_bind (P := fun _ s' => Draining task.module s') ?_ ?_
  · refine Ensures.mono hrun ?_ ?_
    · rintro a s' ⟨hw, hg, -⟩
      exact hs.grow hw hg
    · rintro e s' ⟨-, -, he⟩
      exact he
  · intro a s₁ hs₁
    refine ensures_bind (settles_drain depth n hs₁) ?_
    intro _ s₂ hs₂
    exact hs₂

/-- A request for several references. -/
theorem settles_resolveAll (hs : Settled task.module s) (limits : Limits) (refs : List Ref) :
    Settles task.module s (resolveAll task limits refs) :=
  (steps_declareAll (declares_declare task limits.depth) refs hs.toWellFormed).settles hs
    limits.depth limits.total

/-- A request for one. -/
theorem settles_resolve (hs : Settled task.module s) (limits : Limits) (ref : Ref) :
    Settles task.module s (resolve task limits ref) :=
  (declares_declare task limits.depth s ref hs.toWellFormed).settles hs limits.depth limits.total

/-- The states that requests which return lead to, one after the other. -/
inductive Reached (task : Task σ) : State σ → Prop
  | start (session : σ) : Reached task (State.start session)
  | resolve {s s' : State σ} {limits : Limits} {ref : Ref} {root : Handle} : Reached task s →
      resolve task limits ref s = .ok root s' → Reached task s'
  | resolveAll {s s' : State σ} {limits : Limits} {refs : List Ref} {roots : List Handle} :
      Reached task s → resolveAll task limits refs s = .ok roots s' → Reached task s'

/-- **Requests settle**, however many there were. -/
theorem Reached.settled (h : Reached task s) : Settled task.module s := by
  induction h with
  | start session => exact settled_start task.module session
  | resolve _ hrun ih => exact (settles_resolve ih _ _).of_ok hrun
  | resolveAll _ hrun ih => exact (settles_resolveAll ih _ _).of_ok hrun

/-- What a reference was resolved to is remembered for it. -/
theorem declared_of_resolve (hr : Reached task s) {limits : Limits} {ref : Ref}
    {root : Handle} (hrun : resolve task limits ref s = .ok root s') :
    s'.declared.get? ref = some root := by
  obtain ⟨root', t, hdeclare, hrest⟩ := bind_eq_ok hrun
  obtain ⟨_, u, hdrain, hret⟩ := bind_eq_ok hrest
  cases hret
  obtain ⟨hw, hg, -, hdeclared⟩ :=
    (declares_declare task limits.depth s ref hr.settled.toWellFormed).of_ok hdeclare
  exact declared_of_drain (hr.settled.grow hw hg) hdrain hdeclared

/-! ## 4. What settled states are like -/

/-- Every aggregate is complete. -/
theorem Settled.isComplete (hs : Settled module s) {h : Handle} {a : Aggregate}
    (ha : s.graph.get h = .aggregate a) : a.stage = .complete := by
  rcases hs.settled h a ha with hgrowing | ⟨b, hb, hcomplete⟩
  · have hmem := (hs.growing h).mp hgrowing
    rw [hs.placeholders_eq, hs.defining_eq] at hmem
    cases hmem
  · rw [ha] at hb
    cases hb
    exact hcomplete

/-- The instance has a key. -/
def IsRegistered (s : State σ) (h : Handle) : Prop := (s.registry.keyOf? h).isSome

/-- The instance `y` is a part of `x`, by value or by reference. -/
def DependsOn (g : Graph) (x y : Handle) : Prop := ∃ byValue, (y, byValue) ∈ (g.get x).parts

/-- What holds between requests: nothing is left to do, all there is to know about a registered
instance is known, and its key says what it is made of. -/
structure Quiescent (s : State σ) : Prop where
  worklist_eq : s.worklist = []
  placeholders_eq : s.placeholders = []
  defining_eq : s.defining = []
  openAliases_eq : s.openAliases = []
  finalized : ∀ h, IsRegistered s h → (s.graph.get h).isFinalized = true
  closed : ∀ x y, IsRegistered s x → Relation.ReflTransGen (DependsOn s.graph) x y →
    IsRegistered s y
  pointer : ∀ h target size, IsRegistered s h → s.graph.get h = .pointer target size →
    ∃ k, s.registry.keyOf? target = some k ∧ s.registry.keyOf? h = some (.pointer k)
  array : ∀ h element length, IsRegistered s h → s.graph.get h = .array element length →
    ∃ k, s.registry.keyOf? element = some k ∧ s.registry.keyOf? h = some (.array k length)
  function : ∀ h f, IsRegistered s h → s.graph.get h = .function f →
    ∃ k ks, s.registry.keyOf? f.result = some k ∧
      List.Forall₂ (fun p k => s.registry.keyOf? p = some k) f.parameters ks ∧
      s.registry.keyOf? h = some (.function k ks f.variadic)

theorem Settled.isFinalized (hs : Settled module s) (h : Handle) :
    (s.graph.get h).isFinalized = true := by
  cases hget : s.graph.get h with
  | aggregate a => simp [Instance.isFinalized, Aggregate.isFinalized, hs.isComplete hget]
  | _ => rfl

/-- Parts have keys. -/
theorem Linked.isRegistered_part (hs : Linked s) {x y : Handle} (hxy : DependsOn s.graph x y) :
    IsRegistered s y := by
  obtain ⟨byValue, hmem⟩ := hxy
  exact (hs.registered y).mpr (hs.parts x (y, byValue) hmem)

theorem Linked.isRegistered_of_path (hs : Linked s) {x y : Handle} (hx : IsRegistered s x)
    (hpath : Relation.ReflTransGen (DependsOn s.graph) x y) : IsRegistered s y := by
  induction hpath with
  | refl => exact hx
  | tail _ hlast _ => exact hs.isRegistered_part hlast

/-- A registered scalar has the key of its kind. -/
theorem Linked.key_of_primitive (hs : Linked s) {h : Handle} {kind : Primitive}
    (hh : IsRegistered s h) (hget : s.graph.get h = .primitive kind) :
    s.registry.keyOf? h = some (.primitive kind) := by
  obtain ⟨key, hkey⟩ := Option.isSome_iff_exists.mp hh
  have hbuilt := hs.keyBuilt h key hkey
  rw [hget] at hbuilt
  exact hkey.trans (congrArg some hbuilt)

/-- What a registered pointer or array is made of has a key, and the key of the whole is made of
it. -/
theorem Linked.key_of_pointer (hs : Linked s) {h target : Handle} {size : Int}
    (hh : IsRegistered s h) (hget : s.graph.get h = .pointer target size) :
    ∃ k, s.registry.keyOf? target = some k ∧ s.registry.keyOf? h = some (.pointer k) := by
  obtain ⟨key, hkey⟩ := Option.isSome_iff_exists.mp hh
  have hbuilt := hs.keyBuilt h key hkey
  rw [hget] at hbuilt
  obtain ⟨k, hk, rfl⟩ := hbuilt
  exact ⟨k, hk, hkey⟩

theorem Linked.key_of_array (hs : Linked s) {h element : Handle} {length : Option Int}
    (hh : IsRegistered s h) (hget : s.graph.get h = .array element length) :
    ∃ k, s.registry.keyOf? element = some k ∧ s.registry.keyOf? h = some (.array k length) := by
  obtain ⟨key, hkey⟩ := Option.isSome_iff_exists.mp hh
  have hbuilt := hs.keyBuilt h key hkey
  rw [hget] at hbuilt
  obtain ⟨k, hk, rfl⟩ := hbuilt
  exact ⟨k, hk, hkey⟩

theorem quiescent_of_settled (hs : Settled module s) : Quiescent s where
  worklist_eq := hs.worklist_eq
  placeholders_eq := hs.placeholders_eq
  defining_eq := hs.defining_eq
  openAliases_eq := hs.openAliases_eq
  finalized := fun h _ => hs.isFinalized h
  closed := fun _ _ hx hpath => hs.toLinked.isRegistered_of_path hx hpath
  pointer := fun _ _ _ hh hget => hs.key_of_pointer hh hget
  array := fun _ _ _ hh hget => hs.key_of_array hh hget
  function := fun h f hh hget => by
    obtain ⟨key, hkey⟩ := Option.isSome_iff_exists.mp hh
    have hbuilt := hs.keyBuilt h key hkey
    rw [hget] at hbuilt
    obtain ⟨k, ks, hk, hks, rfl⟩ := hbuilt
    exact ⟨k, ks, hk, hks, hkey⟩

/-- **After every request nothing is left half done**: the lists of the resolver are empty, what
is registered is finalized and closed under parts, and structural keys are built from the keys
of the parts. -/
theorem Reached.quiescent (h : Reached task s) : Quiescent s :=
  quiescent_of_settled h.settled

/-- A source of one struct, `Node`, with a pointer to itself and an array in it. -/
def nodeSource : Source Unit where
  lookup session _ ref :=
    (.ok (match ref with
      | .name "Node" => some node
      | _ => none), session)
  typeNames _ _ := .ok ["Node"]
  pointerSize _ _ := .ok 8
where
  /-- The struct. -/
  node : Shape :=
    Shape.ofAggregate "Node" (some 16) [⟨"next", .name "Node*", 0, none, none, false⟩,
      ⟨"items", .name "int[2]", 8, none, none, false⟩] [] false

/-- The pointer stands behind the struct, and its key is built from the one of the struct. -/
theorem quiescent_nodeSource : ∃ s, Reached ⟨nodeSource, "m"⟩ s ∧
    (s.graph.get 1 = .pointer 0 8 ∧ s.registry.keyOf? 1 = some (.pointer (.named "Node"))) ∧
    Quiescent s := by
  have hrun : returns (resolveAll ⟨nodeSource, "m"⟩ ⟨8, 8⟩ [.name "Node"]) (State.start ())
      (fun _ s => s.graph.get 1 = .pointer 0 8 ∧
        s.registry.keyOf? 1 = some (.pointer (.named "Node"))) = true := by decide +kernel
  obtain ⟨roots, s, hs, hcheck⟩ := exists_of_returns hrun
  have hreached : Reached ⟨nodeSource, "m"⟩ s := .resolveAll (.start ()) hs
  exact ⟨s, hreached, of_decide_eq_true hcheck, hreached.quiescent⟩

end NativeTypes.Resolver
