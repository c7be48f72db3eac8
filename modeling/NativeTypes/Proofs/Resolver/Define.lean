/-
NativeTypes.Proofs.Resolver.Define — what defining an aggregate does.

An aggregate is defined by taking its bases and fields, and each of these is
declared and, if it is embedded by value, defined before it is taken. Whether
this goes well is decided by where it leads: to complete types only, or back to
an aggregate that is being defined.

`Defines` says of a run that it leaves a sound state that evolved from the
first one, and that it stops at a cycle only in an orderly way: the ring it met
is known, consists of a stretch of the aggregates being defined and of
aggregates that ended already (`inner`), and those are marked (`Unwinding`). At
each aggregate that the stop passes, one more of the ring is marked; the one
that the ring was entered at reports it and the run goes on.

So the invariant has to be known in the middle of unwinding, when some members
of a ring are marked and the rest is not. This is what the list of pending
members in `Sound` is for: it is empty between cycles, it is the ring while a
stop passes, and marks on its members are explained by it. The two halves of
the ring change roles in `defines_meetCycle`, the one long proof here: the
innermost aggregate being defined moves from the stretch to those that ended.

Other stops do not matter. A failed query or a stop that was asked for leaves
the state sound as well, and the aggregate that it came through is given up;
what that means is the subject of the modules on unfinished aggregates.

The functions are given how references are declared and how the aggregates
inside are defined; `defines_define` closes the circle by induction on how many
aggregates may be inside each other.
-/
import NativeTypes.Proofs.Resolver.Declare
import NativeTypes.Proofs.Resolver.Moves

namespace NativeTypes.Resolver

variable {σ : Type} {α β : Type} {s s' s'' : State σ} {module : String} {own : List Handle}

/-! ## 1. Outcomes of defining

Runs that define go together as runs do. The list of aggregates being defined is the same before
and after each, while it is longer in between. -/

/-- A cycle was met: its ring is a stretch of what is being defined and what ended inside. -/
structure Unwinding (module : String) (own : List Handle) (s s' : State σ) (path : List Key)
    (ring inner : List Handle) : Prop where
  stretch : ∃ before head after, s.defining = before ++ head :: after ∧
    ring = head :: (after ++ inner)
  path : List.Forall₂ (fun h k => s'.registry.keyOf? h = some k) ring path
  marked : ∀ h ∈ inner, s'.registry.isInvalid h = true
  sound : Sound module ring s'
  evolves : Evolves own s s'
  defining : s'.defining = s.defining

/-- A run leaves a sound state and what it returns satisfies `Q`; at a cycle it unwinds. -/
def Defines (module : String) (own : List Handle) (s : State σ) (run : Run σ α)
    (Q : α → State σ → Prop) : Prop :=
  Ensures run s
    (fun a s' => Sound module [] s' ∧ Evolves own s s' ∧ s'.defining = s.defining ∧ Q a s')
    fun e s' => ∀ path, e = .valueCycle path →
      ∃ ring inner, Unwinding module own s s' path ring inner

/-- A run before it does not matter, if it evolved to where the cycle was met. -/
theorem Unwinding.after {path : List Key} {ring inner : List Handle}
    (h : Unwinding module own s' s'' path ring inner) (he : Evolves own s s')
    (hdefining : s'.defining = s.defining) : Unwinding module own s s'' path ring inner :=
  { h with
    stretch := hdefining ▸ h.stretch
    evolves := he.trans h.evolves
    defining := h.defining.trans hdefining }

/-- Returning at once. -/
theorem defines_pure (hs : Sound module [] s) {a : α} {Q : α → State σ → Prop} (ha : Q a s) :
    Defines module own s (pure a) Q :=
  ⟨hs, Evolves.refl own s, rfl, ha⟩

/-- One run after the other; a cycle in the second is one of both. -/
theorem defines_bind {run : Run σ α} {next : α → Run σ β} {P : α → State σ → Prop}
    {Q : β → State σ → Prop} (hrun : Defines module own s run P)
    (hnext : ∀ a s', Sound module [] s' → Evolves own s s' → s'.defining = s.defining → P a s' →
      Defines module own s' (next a) Q) :
    Defines module own s (run >>= next) Q := by
  refine ensures_bind hrun ?_
  rintro a s' ⟨hs', he, hd, ha⟩
  refine (hnext a s' hs' he hd ha).mono ?_ ?_
  · rintro b t ⟨ht, het, hdt, hb⟩
    exact ⟨ht, he.trans het, hdt.trans hd, hb⟩
  · intro e t hstop path hpath
    obtain ⟨ring, inner, hu⟩ := hstop path hpath
    exact ⟨ring, inner, hu.after he hd⟩

/-- A weaker post. -/
theorem Defines.mono {run : Run σ α} {P Q : α → State σ → Prop}
    (hrun : Defines module own s run P) (h : ∀ a s', Evolves own s s' → P a s' → Q a s') :
    Defines module own s run Q :=
  Ensures.mono hrun (fun a s' ⟨hs', he, hd, ha⟩ => ⟨hs', he, hd, h a s' he ha⟩) fun _ _ he => he

/-- A run that touches no aggregate touches none but `own`. -/
theorem Defines.weaken {run : Run σ α} {Q : α → State σ → Prop}
    (hrun : Defines module [] s run Q) : Defines module own s run Q := by
  refine Ensures.mono hrun (fun a s' ⟨hs', he, hd, ha⟩ => ⟨hs', he.weaken, hd, ha⟩) ?_
  intro e s' hstop path hpath
  obtain ⟨ring, inner, hu⟩ := hstop path hpath
  exact ⟨ring, inner, { hu with evolves := hu.evolves.weaken }⟩

/-- Declaring is a way of defining: it does not meet cycles. -/
theorem Steps.defines {run : Run σ α} {Q : α → State σ → Prop} (hrun : Steps s run Q)
    (hs : Sound module [] s) : Defines module own s run Q := by
  refine Ensures.mono hrun ?_ ?_
  · rintro a s' ⟨hw, hg, ha⟩
    exact ⟨hs.grow hw hg, hg.evolves, hg.defining, ha⟩
  · rintro e s' ⟨-, -, he⟩ path rfl
    cases he

/-! ## 2. Parts

What an aggregate is to embed must be complete before it is taken. Arrays are looked through: an
array of structs embeds the struct. -/

/-- What `t` embeds, if it is an aggregate, is complete. -/
def Ready (t : Handle) (s : State σ) : Prop :=
  ∀ a, s.graph.get (innermost s.graph t) = .aggregate a → a.stage = .complete

/-- How aggregates inside are defined: one that still grows, and that the last of those being
defined contains, is complete afterwards. -/
def DefinesEach (module : String) (define : Handle → Run σ Unit) : Prop :=
  ∀ (s : State σ) (h : Handle), Sound module [] s → IsGrowing s.graph h →
    (∀ y ∈ s.defining.getLast?, Contains s y h) →
    Defines module [] s (define h) fun _ s' => IsComplete s'.graph h

section

variable {declare : Ref → Run σ Handle} {define : Handle → Run σ Unit}

/-- Reading the state. -/
theorem defines_get (hs : Sound module [] s) :
    Defines module own s get fun r s' => r = s ∧ s' = s :=
  ⟨hs, Evolves.refl own s, rfl, rfl, rfl⟩

/-- What `t` embeds is complete already, or it is defined now. If it is being defined already,
this is where a cycle is met. -/
theorem defines_defineValue (hdefine : DefinesEach module define) (hs : Sound module [] s)
    {t : Handle} (ht : t < s.graph.count)
    (hlast : ∀ y ∈ s.defining.getLast?, Contains s y (innermost s.graph t)) :
    Defines module [] s (defineValue define t) fun _ s' => Ready t s' := by
  unfold defineValue
  refine defines_bind (defines_get hs) ?_
  rintro _ r - - - ⟨rfl, rfl⟩
  extract_lets g inner
  split
  · rename_i a ha
    split
    · rename_i hopen
      have hgrowing : IsGrowing r.graph (innermost r.graph t) :=
        ⟨a, ha, by simpa [Aggregate.isFinalized] using hopen⟩
      refine (hdefine r _ hs hgrowing hlast).mono ?_
      rintro - s' he ⟨b, hb, hc⟩ c hget
      rw [he.innermost hs.toLinked ht, hb] at hget
      cases hget
      exact hc
    · rename_i hopen
      refine defines_pure hs fun b hb => ?_
      rcases hs.settled _ a ha with hgrowing | ⟨c, hc, hcomplete⟩
      · have := hgrowing.not_finalized
        rw [ha] at this
        simp [Instance.isFinalized] at this
        simp [this] at hopen
      · rw [hc] at hb
        cases hb
        exact hcomplete
  · rename_i hnot
    exact defines_pure hs fun b hb => absurd hb (hnot b)

/-- The innermost aggregate being defined, its shape and what it took so far. -/
structure Taking (s : State σ) (owner : Handle) (shape : Shape) (a : Aggregate) : Prop where
  last : s.defining.getLast? = some owner
  placed : s.placed.get? owner = some shape
  get : s.graph.get owner = .aggregate a

/-- It is being defined, so it was not finalized. -/
theorem Taking.growing {owner : Handle} {shape : Shape} {a : Aggregate}
    (h : Taking s owner shape a) (hs : Waiting s) : a.stage = .growing := by
  obtain ⟨b, hb, hstage⟩ :=
    (hs.growing owner).mpr (List.mem_append_right _ (List.mem_of_getLast? h.last))
  rw [h.get] at hb
  cases hb
  exact hstage

/-- Aggregates inside do not touch it. -/
theorem Taking.evolve {owner : Handle} {shape : Shape} {a : Aggregate}
    (h : Taking s owner shape a) (hs : (s.placeholders ++ s.defining).Nodup)
    (he : Evolves [] s s') (hd : s'.defining = s.defining) : Taking s' owner shape a where
  last := hd ▸ h.last
  placed := he.placed _ _ h.placed
  get := by
    rw [← h.get]
    refine he.kept owner (Graph.lt_count_of_aggregate h.get) ?_ (by simp)
    intro hmem
    exact (List.nodup_append.mp hs).2.2 owner hmem owner (List.mem_of_getLast? h.last) rfl

variable {owner : Handle} {shape : Shape} {a : Aggregate}

/-- A part of the innermost aggregate is declared, and what it embeds is complete. -/
theorem defines_definePart (hdeclare : Declares declare) (hdefine : DefinesEach module define)
    (hs : Sound module [] s) (ht : Taking s owner shape a) {ref : Ref}
    (href : ref ∈ shape.partRefs) :
    Defines module [] s (definePart declare define ref) fun t s' =>
      Taking s' owner shape a ∧ t < s'.graph.count ∧ s'.declared.get? ref = some t ∧
        Ready t s' := by
  unfold definePart
  refine defines_bind ((hdeclare s ref hs.toWellFormed).defines hs) ?_
  rintro t s₁ hs₁ he₁ hd₁ ⟨hlt, href₁⟩
  have ht₁ := ht.evolve hs.nodup he₁ hd₁
  have hcontains : ∀ y ∈ s₁.defining.getLast?, Contains s₁ y (innermost s₁.graph t) := by
    intro y hy
    rw [ht₁.last] at hy
    cases hy
    exact ⟨shape, ref, t, ht₁.placed, href, href₁, rfl⟩
  refine defines_bind (defines_defineValue hdefine hs₁ hlt hcontains) ?_
  intro _ s₂ hs₂ he₂ hd₂ hready
  exact defines_pure hs₂ ⟨ht₁.evolve hs₁.nodup he₂ hd₂, Nat.lt_of_lt_of_le hlt he₂.count,
    he₂.declared _ _ href₁, hready⟩

/-! ## 3. Bases and fields

The parts are taken in order, and what was taken so far follows the shape so far. -/

/-- The innermost aggregate takes one more part. -/
theorem defines_changeGraph (hs : Sound module [] s) (ht : Taking s owner shape a)
    (add : Aggregate → Aggregate) (hstage : (add a).stage = a.stage)
    (hkind : (add a).kindLost = a.kindLost) {t : Handle}
    (hlt : t < s.graph.count) (hready : Ready t s)
    (hparts : ∀ p ∈ (Instance.aggregate (add a)).parts,
      p ∈ (Instance.aggregate a).parts ∨ p = (t, true)) :
    Defines module [owner] s (changeGraph (fun g => g.change owner add) : Run σ Unit) fun _ s' =>
      Taking s' owner shape (add a) := by
  have hgrowing := ht.growing hs.toWaiting
  have heq : (changeGraph (fun g => g.change owner add) : Run σ Unit) s =
      .ok () (assigned s owner (add a)) := by
    show EStateM.Result.ok ()
      { s with graph := (s.graph.change owner add).toOption.getD s.graph } = _
    rw [Graph.change_of_aggregate ht.get (by simp [hgrowing])]
    rfl
  unfold Defines Ensures
  rw [heq]
  refine ⟨hs.assigned ht.get (List.mem_of_getLast? ht.last) (hstage.trans hgrowing) hkind
    hlt hparts hready, evolves_assigned _ ht.get (by simp [hgrowing]), rfl, ht.last, ht.placed, ?_⟩
  rw [get_assigned _ ht.get, if_pos rfl]

section

variable (hdeclare : Declares declare) (hdefine : DefinesEach module define)
include hdeclare hdefine

/-- The bases it takes follow those of the shape. -/
theorem defines_defineBases (hs : Sound module [] s) (ht : Taking s owner shape a)
    (bases : List BaseShape) (hbases : ∀ b ∈ bases, b.type ∈ shape.partRefs) :
    Defines module [owner] s (defineBases declare define owner bases) fun _ s' =>
      ∃ new, Taking s' owner shape { a with bases := a.bases ++ new } ∧
        List.Forall₂ (FollowsBase s') bases new := by
  induction bases generalizing s a with
  | nil => exact defines_pure hs ⟨[], by simpa using ht, .nil⟩
  | cons b bs ih =>
    unfold defineBases
    refine defines_bind
      (defines_definePart hdeclare hdefine hs ht (hbases b (by simp))).weaken ?_
    rintro t s₁ hs₁ - - ⟨ht₁, hlt, href, hready⟩
    refine defines_bind (defines_changeGraph hs₁ ht₁
      (fun a => { a with bases := a.bases ++ [⟨t, b.offset, b.isTruth⟩] }) rfl rfl hlt hready ?_) ?_
    · intro p hp
      simp only [Instance.mem_parts_iff, Instance.valueParts, Instance.referenceParts] at hp ⊢
      grind
    · intro _ s₂ hs₂ he₂ _ ht₂
      refine (ih hs₂ ht₂ fun b hb => hbases b (by simp [hb])).mono ?_
      rintro _ s₃ he₃ ⟨new, ht₃, hnew⟩
      refine ⟨⟨t, b.offset, b.isTruth⟩ :: new, by simpa using ht₃, .cons ?_ hnew⟩
      exact ⟨he₃.declared _ _ (he₂.declared _ _ href), rfl, rfl⟩

/-- So do the fields. -/
theorem defines_defineFields (hs : Sound module [] s) (ht : Taking s owner shape a)
    (fields : List FieldShape) (hfields : ∀ f ∈ fields, f.type ∈ shape.partRefs) :
    Defines module [owner] s (defineFields declare define owner fields) fun _ s' =>
      ∃ new, Taking s' owner shape { a with fields := a.fields ++ new } ∧
        List.Forall₂ (FollowsField s') fields new := by
  induction fields generalizing s a with
  | nil => exact defines_pure hs ⟨[], by simpa using ht, .nil⟩
  | cons f fs ih =>
    unfold defineFields
    refine defines_bind
      (defines_definePart hdeclare hdefine hs ht (hfields f (by simp))).weaken ?_
    rintro t s₁ hs₁ - - ⟨ht₁, hlt, href, hready⟩
    refine defines_bind (defines_changeGraph hs₁ ht₁
      (fun a => { a with
        fields := a.fields ++ [⟨f.name, t, f.offset, f.bitOffset, f.bitWidth, f.isTruth⟩] })
      rfl rfl hlt hready ?_) ?_
    · intro p hp
      simp only [Instance.mem_parts_iff, Instance.valueParts, Instance.referenceParts] at hp ⊢
      grind
    · intro _ s₂ hs₂ he₂ _ ht₂
      refine (ih hs₂ ht₂ fun f hf => hfields f (by simp [hf])).mono ?_
      rintro _ s₃ he₃ ⟨new, ht₃, hnew⟩
      refine ⟨⟨f.name, t, f.offset, f.bitOffset, f.bitWidth, f.isTruth⟩ :: new,
        by simpa using ht₃, .cons ?_ hnew⟩
      exact ⟨he₃.declared _ _ (he₂.declared _ _ href), rfl, rfl, rfl, rfl, rfl⟩

end

/-! ## 4. The body

Bases, then fields, then the check of the layout. -/

variable {task : Task σ}

/-- Parts that do not fit are a reason for a mark, not for stopping. -/
theorem defines_checkLayout (hs : Sound task.module [] s) (ht : Taking s owner shape a) :
    Defines task.module [owner] s (checkLayout task owner) fun _ s' =>
      Taking s' owner shape a := by
  unfold checkLayout
  refine defines_bind (defines_get hs) ?_
  rintro r _ - - - ⟨rfl, rfl⟩
  rw [ht.get]
  simp only
  split
  · exact defines_pure hs ht
  · rename_i fault _
    refine defines_bind ((steps_keyOf hs.toWellFormed owner).defines hs) ?_
    rintro key _ - - - ⟨rfl, -⟩
    refine defines_bind ((steps_needWritable hs.toWellFormed fault.isWritable).defines hs) ?_
    rintro _ _ - - - ⟨rfl, -⟩
    have hmarked : Explained task.module [] (marked _ owner fault.message
        [(TypeProblem.invalidLayout fault.message).diagnostic (key.text task.module)
          task.module]) :=
      hs.explained.faulted hs.toWellFormed fault (by simp [TypeProblem.diagnostic,
        TypeProblem.kind])
    exact ⟨hs.marked hmarked, evolves_marked _ _, rfl, ht.last, ht.placed, ht.get⟩

/-- A body that is run through follows the shape. -/
theorem defines_defineBody {declare : Ref → Run σ Handle} {define : Handle → Run σ Unit}
    (hdeclare : Declares declare) (hdefine : DefinesEach task.module define)
    (hs : Sound task.module [] s) (ht : Taking s owner shape a) (hbases : a.bases = [])
    (hfields : a.fields = []) :
    Defines task.module [owner] s (defineBody task declare define owner shape) fun _ s' =>
      ∃ a', Taking s' owner shape a' ∧ Follows s' shape a' := by
  unfold defineBody
  refine defines_bind (defines_defineBases hdeclare hdefine hs ht shape.bases ?_) ?_
  · intro b hb
    exact List.mem_append_left _ (List.mem_map.mpr ⟨b, hb, rfl⟩)
  · rintro _ s₁ hs₁ - - ⟨bases, ht₁, hfollow₁⟩
    refine defines_bind (defines_defineFields hdeclare hdefine hs₁ ht₁ shape.fields ?_) ?_
    · intro f hf
      exact List.mem_append_right _ (List.mem_map.mpr ⟨f, hf, rfl⟩)
    · rintro _ s₂ hs₂ he₂ - ⟨fields, ht₂, hfollow₂⟩
      refine (defines_checkLayout hs₂ ht₂).mono ?_
      intro _ s₃ he₃ ht₃
      refine ⟨_, ht₃, ?_⟩
      have hfollows : Follows s₂ shape { a with bases := a.bases ++ bases,
                                                fields := a.fields ++ fields } := by
        rw [hbases, hfields]
        exact ⟨hfollow₁.imp fun _ _ hb => ⟨he₂.declared _ _ hb.1, hb.2⟩, hfollow₂⟩
      exact hfollows.evolve he₃

/-! ## 5. Cycles

A ring is known by handles in `Unwinding` and by keys in the stop; both name the same members in
the same order. -/

/-- The text of a handle is that of its key. -/
theorem keyText_of_keyOf? {r : Registry Key} {h : Handle} {key : Key} (hk : r.keyOf? h = some key) :
    r.keyText module h = key.text module := by
  unfold Registry.keyText
  rw [hk]
  rfl

/-- The words for a ring are made of the texts of its keys. -/
theorem ringProblem_of_keys {r : Registry Key} {ring : List Handle} {path : List Key}
    (hpath : List.Forall₂ (fun h k => r.keyOf? h = some k) ring path) :
    ringProblem module r ring = .valueCycle (path.map (Key.text module)) := by
  unfold ringProblem
  congr 1
  induction hpath with
  | nil => rfl
  | cons hk _ ih => rw [List.map_cons, List.map_cons, ih, keyText_of_keyOf? hk]

/-- An aggregate that meets a cycle is marked and ends; it reports the cycle that was entered at
it, and passes on all others. -/
theorem meetCycle_run {h : Handle} {key : Key} (hkey : s.registry.keyOf? h = some key)
    {ring : List Handle} {path : List Key}
    (hpath : List.Forall₂ (fun h k => s.registry.keyOf? h = some k) ring path) :
    meetCycle task h path s =
      if path.head? = some key then
        .ok () { marked s h (ringProblem task.module s.registry ring).message
                   [(ringProblem task.module s.registry ring).diagnostic (key.text task.module)
                     task.module] with graph := s.graph.finalize h }
      else
        .error (.valueCycle path)
          { marked s h (ringProblem task.module s.registry ring).message [] with
            graph := s.graph.finalize h } := by
  have hkey' (reason : String) : (s.registry.markInvalid h reason).keyOf? h = some key := hkey
  rw [ringProblem_of_keys hpath]
  have hrun (reason : String) (t : State σ) (next : Key → Run σ Unit)
      (ht : t.registry = s.registry.markInvalid h reason) : (keyOf h >>= next) t = next key t := by
    refine run_bind_ok ?_
    simp [keyOf, ht, hkey']
  simp only [meetCycle, markInvalid, finalize, run_modify_bind]
  rw [hrun _ _ _ rfl]
  split
  · rfl
  · simp [marked]

/-- From a member of a list without repetitions on. -/
theorem dropWhile_of_nodup {l before after : List Handle} {h : Handle} (hnodup : l.Nodup)
    (hsplit : l = before ++ h :: after) : l.dropWhile (· ≠ h) = h :: after := by
  rw [hsplit] at hnodup ⊢
  rw [List.dropWhile_append_of_pos]
  · simp
  · intro x hx
    have := (List.nodup_append.mp hnodup).2.2 x hx h (by simp)
    simpa using this

section

variable {declare : Ref → Run σ Handle} {define : Handle → Run σ Unit} {h : Handle}

/-- The aggregates being defined, from `h` on, are the ring when `h` is reached by value. -/
theorem defines_enterCycle (hs : Sound task.module [] s) (hh : h ∈ s.defining)
    (hlast : ∀ y ∈ s.defining.getLast?, Contains s y h) (next : Unit → Run σ Unit)
    (Q : Unit → State σ → Prop) :
    Defines task.module [] s
      (cycleFrom h >>= fun path => throw (.valueCycle path) >>= next) Q := by
  obtain ⟨before, after, hsplit⟩ := List.append_of_mem hh
  have hnodup : s.defining.Nodup := (List.nodup_append.mp hs.nodup).2.1
  have hstretch := dropWhile_of_nodup hnodup hsplit
  have hring : Ring s (h :: after) := by
    have hchain : (s.defining ++ [h]).IsChain (Contains s) := by
      refine List.isChain_append.mpr ⟨hs.nested, List.isChain_singleton h, ?_⟩
      intro x hx y hy
      cases hy
      exact hlast x hx
    rw [hsplit, List.append_assoc] at hchain
    rw [hsplit] at hnodup
    exact ⟨by simp, (List.nodup_append.mp hnodup).2.1, (List.isChain_append.mp hchain).2.1⟩
  refine defines_bind (P := fun path s' => s' = s ∧
    List.Forall₂ (fun h k => s.registry.keyOf? h = some k) (h :: after) path) ?_ ?_
  · unfold cycleFrom
    refine defines_bind (defines_get hs) ?_
    rintro r _ - - - ⟨rfl, rfl⟩
    rw [hstretch]
    exact (steps_keysOf _ hs.toWellFormed).defines hs
  · rintro path _ - - - ⟨rfl, hpath⟩ path' hpath'
    cases hpath'
    refine ⟨h :: after, [], ⟨before, h, after, hsplit, by simp⟩, hpath, by simp, ?_,
      Evolves.refl _ _, rfl⟩
    exact { hs with
      explained := { hs.explained with
        unwound := Or.inr hring
        marks := fun x reason hr => by
          cases hs.explained.marks x reason hr with
          | pending hmem => cases hmem
          | ring other hother hmem hreport => exact .ring other hother hmem hreport
          | layout fault => exact .layout fault } }

/-- Taking up an aggregate that waits. -/
theorem defineOnce_run (hnot : h ∉ s.defining) (hmem : h ∈ s.placeholders)
    (hshape : s.placed.get? h = some shape) :
    defineOnce task declare define h s =
      match defineBody task declare define h shape (entered s h) with
      | .ok _ t => .ok () (closed t h)
      | .error (.valueCycle path) t =>
        match meetCycle task h path t with
        | .ok _ t => .ok () { t with defining := t.defining.dropLast }
        | .error e t => .error e { t with defining := t.defining.dropLast }
      | .error e t => .error e { t with defining := t.defining.dropLast } := by
  have hrun : defineOnce task declare define h s =
      whileDefining h (defineCaught task declare define h shape)
        { s with placeholders := s.placeholders.erase h } := by
    simp [defineOnce, takeShape, hnot, hmem, hshape]
  rw [hrun]
  unfold whileDefining defineCaught
  have hentered :
      ({ s with placeholders := s.placeholders.erase h, defining := s.defining ++ [h] } : State σ)
        = entered s h := rfl
  simp only [hentered]
  cases defineBody task declare define h shape (entered s h) with
  | ok _ t => rfl
  | error e t =>
    cases e with
    | valueCycle path =>
      dsimp only
      cases meetCycle task h path t with
      | ok _ r => rfl
      | error e r => rfl
    | _ => rfl

/-- A run that was unwound to the aggregate `h` ends there if the ring was entered at it; else
`h` is one more member that is marked. -/
theorem defines_meetCycle {t : State σ} (hmem : h ∈ s.placeholders) {path : List Key}
    {ring inner : List Handle}
    (hu : Unwinding task.module [h] (entered s h) t path ring inner) :
    Ensures (fun r => match meetCycle task h path r with
        | .ok _ r => .ok () { r with defining := r.defining.dropLast }
        | .error e r => .error e { r with defining := r.defining.dropLast } : Run σ Unit) t
      (fun _ s' => Sound task.module [] s' ∧ Evolves [] s s' ∧ s'.defining = s.defining ∧
        IsComplete s'.graph h)
      fun e s' => ∀ path, e = .valueCycle path →
        ∃ ring inner, Unwinding task.module [] s s' path ring inner := by
  have hlast : t.defining = s.defining ++ [h] := hu.defining
  have hnodup : (s.defining ++ [h]).Nodup := hlast ▸ (List.nodup_append.mp hu.sound.nodup).2.1
  have hring : Ring t ring := by
    refine hu.sound.explained.unwound.resolve_left ?_
    obtain ⟨before, head, after, -, rfl⟩ := hu.stretch
    simp
  have hgrowing : IsGrowing t.graph h :=
    (hu.sound.growing h).mpr (List.mem_append_right _ (by simp [hlast]))
  obtain ⟨a, ha, hstage⟩ := hgrowing
  obtain ⟨key, hkey⟩ := hu.sound.toLinked.exists_key (Graph.lt_count_of_aggregate ha)
  -- wherever the ring was entered, `h` is marked and ends
  have hend : ∀ ds pending, Explained task.module pending
        (marked t h (ringProblem task.module t.registry ring).message ds) →
      Sound task.module pending
          (closed (marked t h (ringProblem task.module t.registry ring).message ds) h) ∧
        Evolves [] s
          (closed (marked t h (ringProblem task.module t.registry ring).message ds) h) ∧
        IsComplete
          (closed (marked t h (ringProblem task.module t.registry ring).message ds) h).graph h := by
    intro ds pending hx
    refine ⟨(hu.sound.marked hx).closed ha hstage ?_ (Or.inl (isInvalid_marked _)), ?_, ?_⟩
    · show t.defining.getLast? = some h
      rw [hlast, List.getLast?_append]
      rfl
    · refine Evolves.of_waiting ?_ hmem
      exact (evolves_entered s h).trans
        (hu.evolves.trans ((evolves_marked _ _).trans (evolves_closed ha hstage)))
    · exact isComplete_closed (s := marked t h _ ds) ha hstage
  have hdefining : t.defining.dropLast = s.defining := by
    rw [hlast, List.dropLast_concat]
  obtain ⟨before, head, after, hstretch, hringeq⟩ := hu.stretch
  replace hstretch : s.defining ++ [h] = before ++ head :: after := hstretch
  have hfirst : ∃ k, t.registry.keyOf? head = some k ∧ path.head? = some k := by
    have hpath := hu.path
    rw [hringeq] at hpath
    cases hpath with
    | cons hk _ => exact ⟨_, hk, rfl⟩
  obtain ⟨k, hk, hhead⟩ := hfirst
  unfold Ensures
  simp only [meetCycle_run hkey hu.path]
  rcases List.eq_nil_or_concat after with rfl | ⟨after', last, rfl⟩
  · -- the ring was entered at `h`
    obtain ⟨-, hsame⟩ := List.append_inj' hstretch rfl
    cases hsame
    rw [hkey] at hk
    cases hk
    have hreport : ringReport task.module t.registry ring =
        (ringProblem task.module t.registry ring).diagnostic (key.text task.module)
          task.module := by
      rw [ringReport, hringeq, List.headD_cons, keyText_of_keyOf? hkey]
    have hx := hu.sound.explained.reported hu.sound.toWellFormed hring (h := h)
      (by simp [hringeq]) ?_
    · rw [if_pos hhead, ← hreport]
      obtain ⟨hsound, hevolves, hcomplete⟩ := hend _ _ hx
      exact ⟨hsound, hevolves, hdefining, hcomplete⟩
    · intro x hmem hne
      rw [hringeq, List.nil_append] at hmem
      exact hu.marked x ((List.mem_cons.mp hmem).resolve_left hne)
  · -- the ring was entered further out
    rw [List.concat_eq_append, ← List.cons_append, ← List.append_assoc] at hstretch
    obtain ⟨hdef, hsame⟩ := List.append_inj' hstretch rfl
    cases hsame
    have hne : ¬path.head? = some key := by
      rw [hhead]
      intro he
      cases he
      have heq := hu.sound.coherent.keyOf?_inj hk hkey
      rw [hdef] at hnodup
      exact (List.nodup_append.mp hnodup).2.2 head (by simp) h (by simp) heq
    have hx := hu.sound.explained.passed hu.sound.toWellFormed (h := h) (by simp [hringeq])
    rw [if_neg hne]
    obtain ⟨hsound, hevolves, -⟩ := hend _ _ hx
    intro path' hpath'
    cases hpath'
    refine ⟨ring, h :: inner, ⟨before, head, after', hdef, by simp [hringeq]⟩, hu.path, ?_,
      hsound, hevolves, hdefining⟩
    intro x hmem
    rcases List.mem_cons.mp hmem with rfl | hmem
    · exact isInvalid_marked []
    · exact (evolves_marked [] []).isInvalid (hu.marked x hmem)

/-- **Defining an aggregate**: it is complete afterwards, or the cycle that it is on is being
unwound. -/
theorem defines_defineOnce (hdeclare : Declares declare)
    (hdefine : DefinesEach task.module define) :
    DefinesEach task.module (defineOnce task declare define) := by
  intro s h hs hgrowing hlast
  by_cases hh : h ∈ s.defining
  · have hrun : defineOnce task declare define h s = (cycleFrom h >>= fun path =>
        throw (.valueCycle path) >>= fun _ : Unit =>
          takeShape h >>= fun shape =>
            whileDefining h (defineCaught task declare define h shape)) s := by
      simp [defineOnce, hh]
    unfold Defines Ensures
    rw [hrun]
    exact defines_enterCycle hs hh hlast _ _
  · have hmem : h ∈ s.placeholders :=
      (List.mem_append.mp ((hs.growing h).mp hgrowing)).resolve_right hh
    obtain ⟨a, ha, hstage⟩ := hgrowing
    obtain ⟨shape, hshape⟩ := (hs.placed h).mpr ⟨a, ha⟩
    obtain ⟨hbases, hfields⟩ := hs.empty h hmem a ha
    have htaking : Taking (entered s h) h shape a :=
      ⟨by simp [entered], hshape, ha⟩
    have hbody := defines_defineBody hdeclare hdefine (hs.entered hmem hlast) htaking hbases
      hfields
    unfold Defines Ensures
    rw [defineOnce_run hh hmem hshape]
    cases hrun : defineBody task declare define h shape (entered s h) with
    | ok _ t =>
      obtain ⟨ht, he, hd, a', ht', hfollows⟩ := hbody.of_ok hrun
      have hstage' := ht'.growing ht.toWaiting
      refine ⟨ht.closed ht'.get hstage' ht'.last (Or.inr ?_), ?_, ?_,
        isComplete_closed ht'.get hstage'⟩
      · intro shape' hshape'
        rw [ht'.placed] at hshape'
        cases hshape'
        exact hfollows
      · exact Evolves.of_waiting ((evolves_entered s h).trans
          (he.trans (evolves_closed ht'.get hstage'))) hmem
      · show t.defining.dropLast = s.defining
        rw [hd]
        exact List.dropLast_concat
    | error e t =>
      have hstop := hbody.of_error hrun
      cases e with
      | valueCycle path =>
        obtain ⟨ring, inner, hu⟩ := hstop path rfl
        exact defines_meetCycle hmem hu
      | _ =>
        intro path hpath
        cases hpath

end

/-- **Defining keeps the state sound**, however many aggregates may be inside each other. -/
theorem defines_define (task : Task σ) (depth n : Nat) :
    DefinesEach task.module (NativeTypes.Resolver.define task depth n) := by
  induction n with
  | zero =>
    intro s h _ _ _ path hpath
    cases hpath
  | succ n ih => exact defines_defineOnce (declares_declare task depth) ih

end

end NativeTypes.Resolver
