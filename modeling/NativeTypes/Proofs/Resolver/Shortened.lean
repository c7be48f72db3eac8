/-
NativeTypes.Proofs.Resolver.Shortened — a resolver that is told to stop does
what one that is not told does, up to that moment.

The two resolvers work on two sources that answer alike; the second source may
ask for a stop, the first one never does (`Shortening`). As long as both were
told to go on they know the same, and when the second is told to stop it stops
there and then, while the first goes on from a state that remembers how far it
was (`Shortened`).

A run of the one is compared with a run of the other from states that differ in
the session only, `s` and `s.at b`. The comparison has four outcomes. Both
return the same, from level sessions; both stop for the same reason, which is
no failed query; both fail in the same query; or the second has stopped by
request, and then the first is late. The fourth is the only one in which the
runs come apart. It needs the second half of `Shortens`: a run that begins late
ends late. For what the first resolver does after the second stopped is
compared with nothing, but it has to be known afterwards that the stop was due
before it got there.

Nothing is needed about what the resolvers do: a step that does not ask its
source does the same in both, and `Shortens` is kept by sequencing
(`Shortens.bind`), by reading the state (`Shortens.get_bind`) and by a change
that is undone at the end (`Shortens.around`). So the lemmas of sections 2, 4
and 5 follow the text of the functions, and what there is to prove stands in
section 3: the poll that comes before each question is where the stop is seen
(`checkCancelled_shortened`, `Shortens.check_bind`), and behind it both sources
give the same answer.

A failed query ends both resolvers, and what is asked of the sources afterwards
is not compared any more: `failed` says nothing of the sessions, because a
source may count a look-up that it lost and another one may not. This is also
why a stop for a query and a stop for anything else are told apart in
`Shortened`: only after the latter may a run be taken up again, which is what
the definition of an aggregate does with a value cycle.
-/
import NativeTypes.Proofs.Runs
import NativeTypes.Resolver.Define

namespace NativeTypes

/-- Two sources that answer alike as long as both say that the run may go on. Only the second one
may say that it is to stop: that happens at the states `halted`, when the first source is in a
state that is `late`, and late it stays. -/
structure Shortening {σ τ : Type} (whole : Source σ) (short : Source τ) (module : String) where
  /-- The same was asked of both. -/
  level : σ → τ → Prop
  /-- The same was asked of both, and the run may go on. -/
  free : σ → τ → Prop
  late : σ → Prop
  halted : τ → Prop
  level_of_free : ∀ {a b}, free a b → level a b
  polled : ∀ {a b}, level a b → ∃ a' b', whole.stopRequested a = (false, a') ∧
    (short.stopRequested b = (false, b') ∧ free a' b' ∨
      short.stopRequested b = (true, b') ∧ halted b' ∧ late a')
  looked : ∀ {a b}, free a b → ∀ ref, ∃ answer a' b', whole.lookup a module ref = (answer, a') ∧
    short.lookup b module ref = (answer, b') ∧ ∀ shape, answer = .ok shape → level a' b'
  sized : ∀ {a b}, free a b → whole.pointerSize a module = short.pointerSize b module
  listed : ∀ {a b}, free a b → whole.typeNames a module = short.typeNames b module
  late_polled : ∀ {a}, late a → late (whole.stopRequested a).2
  late_looked : ∀ {a}, late a → ∀ ref, late (whole.lookup a module ref).2

namespace Resolver

variable {σ τ : Type} {α β : Type}

/-! ## 1. Resolvers of two sources

The state of a resolver is what it knows and the session of its source. Two resolvers that know
the same are one state with two sessions, so the second is written `s.at b`, and every function
that reads the state reads the same in both. -/

/-- The same knowledge, with another source. -/
def State.at (s : State σ) (session : τ) : State τ := { s with session }

section

variable (s : State σ) (b : τ)

@[simp] theorem State.at_session : (s.at b).session = b := rfl
@[simp] theorem State.at_graph : (s.at b).graph = s.graph := rfl
@[simp] theorem State.at_registry : (s.at b).registry = s.registry := rfl
@[simp] theorem State.at_lastQuery : (s.at b).lastQuery = s.lastQuery := rfl
@[simp] theorem State.at_shapes : (s.at b).shapes = s.shapes := rfl
@[simp] theorem State.at_declared : (s.at b).declared = s.declared := rfl
@[simp] theorem State.at_placed : (s.at b).placed = s.placed := rfl
@[simp] theorem State.at_placeholders : (s.at b).placeholders = s.placeholders := rfl
@[simp] theorem State.at_worklist : (s.at b).worklist = s.worklist := rfl
@[simp] theorem State.at_defining : (s.at b).defining = s.defining := rfl
@[simp] theorem State.at_openAliases : (s.at b).openAliases = s.openAliases := rfl
@[simp] theorem State.at_pointerSize : (s.at b).pointerSize = s.pointerSize := rfl
@[simp] theorem State.at_anonymous : (s.at b).anonymous = s.anonymous := rfl

end

/-- The state that a run ends in, whether it returns or stops. -/
def final : EStateM.Result Stop (State σ) α → State σ
  | .ok _ s => s
  | .error _ s => s

variable {whole : Source σ} {short : Source τ} {module : String}
  (S : Shortening whole short module)

/-- How the second run ends when the first one ends so: in the same way, or earlier by a stop. -/
inductive Shortened : EStateM.Result Stop (State σ) α → EStateM.Result Stop (State τ) α → Prop
  | returned {a : α} {s : State σ} {b : τ} : S.level s.session b →
      Shortened (.ok a s) (.ok a (s.at b))
  | stopped {e : Stop} {s : State σ} {b : τ} : (∀ fault, e ≠ .query fault) →
      S.level s.session b → Shortened (.error e s) (.error e (s.at b))
  | failed {fault : QueryFault} {s : State σ} {b : τ} :
      Shortened (.error (.query fault) s) (.error (.query fault) (s.at b))
  | halted {r : EStateM.Result Stop (State σ) α} {t : State τ} : S.late (final r).session →
      S.halted t.session → Shortened r (.error (.cancelled module) t)

/-- A change of what is known, made in both runs, that asks no source. -/
structure SameChange (f : State σ → State σ) (f' : State τ → State τ) : Prop where
  same : ∀ s (b : τ), f' (s.at b) = (f s).at b
  session : ∀ s, (f s).session = s.session
  session' : ∀ t, (f' t).session = t.session

/-- A run between a change when it begins and one when it ends, however it ends. -/
def around (enter leave : State σ → State σ) (run : Run σ α) : Run σ α := fun s =>
  match run (enter s) with
  | .ok a s => .ok a (leave s)
  | .error e s => .error e (leave s)

/-- From level states the second run is the first one shortened, and the first one stays late. -/
structure Shortens (run : Run σ α) (run' : Run τ α) : Prop where
  shortened : ∀ s b, S.level s.session b → Shortened S (run s) (run' (s.at b))
  late : ∀ s, S.late s.session → S.late (final (run s)).session

namespace Shortens

variable {S} {run : Run σ α} {run' : Run τ α}

theorem pure (a : α) : Shortens S (pure a : Run σ α) (pure a : Run τ α) where
  shortened _ _ h := .returned h
  late _ h := h

/-- A stop that is no failed query is the same stop in both runs. -/
theorem throw {e : Stop} (he : ∀ fault, e ≠ .query fault) :
    Shortens S (throw e : Run σ α) (throw e : Run τ α) where
  shortened _ _ h := .stopped he h
  late _ h := h

theorem modify {f : State σ → State σ} {f' : State τ → State τ} (hf : SameChange f f') :
    Shortens S (modify f : Run σ PUnit) (modify f' : Run τ PUnit) where
  shortened s b h := by
    rw [run_modify, run_modify, hf.same]
    exact .returned (by rwa [hf.session])
  late s h := by
    show S.late (f s).session
    rwa [hf.session]

/-- One run after the other. Where the second resolver has stopped, the first one alone runs what
follows, and all that has to be known of it is that it stays late. -/
theorem bind {next : α → Run σ β} {next' : α → Run τ β} (h : Shortens S run run')
    (hnext : ∀ a, Shortens S (next a) (next' a)) :
    Shortens S (run >>= next) (run' >>= next') where
  late s hs := by
    have hrun := h.late s hs
    cases hr : run s with
    | ok a s' =>
      rw [hr] at hrun
      rw [run_bind_ok hr]
      exact (hnext a).late s' hrun
    | error e s' =>
      rw [hr] at hrun
      rw [run_bind_error hr]
      exact hrun
  shortened s b hs := by
    have hrun := h.shortened s b hs
    generalize hr' : run' (s.at b) = r' at hrun
    cases hr : run s with
    | ok a s' =>
      rw [hr] at hrun
      rw [run_bind_ok hr]
      cases hrun with
      | returned hlevel =>
        rw [run_bind_ok hr']
        exact (hnext a).shortened _ _ hlevel
      -- the second run is over; the first goes on, and late it is
      | halted hlate hhalted =>
        rw [run_bind_error hr']
        exact .halted ((hnext a).late s' hlate) hhalted
    | error e s' =>
      rw [hr] at hrun
      rw [run_bind_error hr]
      cases hrun with
      | stopped he hlevel =>
        rw [run_bind_error hr']
        exact .stopped he hlevel
      | failed =>
        rw [run_bind_error hr']
        exact .failed
      | halted hlate hhalted =>
        rw [run_bind_error hr']
        exact .halted hlate hhalted

/-- A run that begins by reading what it knows. -/
theorem get_bind {next : State σ → Run σ β} {next' : State τ → Run τ β}
    (h : ∀ s, Shortens S (next s) fun t => next' (s.at t.session) t) :
    Shortens S (get >>= next) (get >>= next') where
  shortened s b hs := (h s).shortened s b hs
  late s hs := (h s).late s hs

/-- A change before and its counterpart after a run, however that ends. -/
theorem around (h : Shortens S run run') {enter leave : State σ → State σ}
    {enter' leave' : State τ → State τ} (henter : SameChange enter enter')
    (hleave : SameChange leave leave') :
    Shortens S (around enter leave run) (around enter' leave' run') where
  shortened s b hs := by
    have hrun := h.shortened (enter s) b (by rwa [henter.session])
    unfold Resolver.around
    rw [henter.same]
    generalize run (enter s) = r, run' ((enter s).at b) = r' at hrun
    cases hrun with
    | returned hlevel =>
      simp only [hleave.same]
      exact .returned (by rwa [hleave.session])
    | stopped he hlevel =>
      simp only [hleave.same]
      exact .stopped he (by rwa [hleave.session])
    | failed =>
      simp only [hleave.same]
      exact .failed
    | halted hlate hhalted =>
      refine .halted ?_ (by rwa [hleave.session'])
      cases r with
      | ok a t => exact (hleave.session t).symm ▸ hlate
      | error e t => exact (hleave.session t).symm ▸ hlate
  late s hs := by
    have hrun := h.late (enter s) (by rwa [henter.session])
    unfold Resolver.around
    generalize run (enter s) = r at hrun
    cases r with
    | ok a t => exact (hleave.session t).symm ▸ hrun
    | error e t => exact (hleave.session t).symm ▸ hrun

end Shortens

/-! ## 2. Steps that ask no source

Each of these is the same text in both runs. Where the state is read, what was read is the same
because only sessions differ. -/

variable {S}

/-- A report is a change that asks no source. -/
theorem shortens_report (d : Diagnostic) :
    Shortens S (report d : Run σ Unit) (report d : Run τ Unit) :=
  .modify ⟨fun _ _ => rfl, fun _ => rfl, fun _ => rfl⟩

/-- The key is the same in both, and so is the stop if there is none. -/
theorem shortens_keyOf (h : Handle) : Shortens S (keyOf h : Run σ Key) (keyOf h : Run τ Key) := by
  unfold keyOf
  refine .get_bind fun s => ?_
  cases hkey : s.registry.keyOf? h with
  | some key =>
    simp only [State.at_registry, hkey]
    exact .pure key
  | none =>
    simp only [State.at_registry, hkey]
    exact .throw nofun

theorem shortens_keysOf (handles : List Handle) :
    Shortens S (keysOf handles : Run σ (List Key)) (keysOf handles : Run τ (List Key)) := by
  induction handles with
  | nil => exact .pure []
  | cons h rest ih =>
    exact (shortens_keyOf h).bind fun key => ih.bind fun keys => .pure (key :: keys)

theorem shortens_needWritable (writable : Bool) :
    Shortens S (needWritable writable : Run σ Unit) (needWritable writable : Run τ Unit) := by
  unfold needWritable
  split
  · exact .pure ()
  · exact .throw nofun

/-- The registry answers both alike, and a refusal is no failed query. -/
theorem shortens_register (key : Key) (i : Instance) :
    Shortens S (register ⟨whole, module⟩ key i) (register ⟨short, module⟩ key i) where
  shortened s b hs := by
    unfold register
    rw [run_get_bind, run_get_bind]
    simp only [State.at_registry, State.at_graph]
    cases s.registry.register key s.graph.count with
    | ok registry => exact .returned hs
    | error e => exact .stopped nofun hs
  late s hs := by
    unfold register
    rw [run_get_bind]
    simp only
    cases s.registry.register key s.graph.count with
    | ok registry => exact hs
    | error e => exact hs

theorem shortens_ensure (key : Key) (i : Instance) :
    Shortens S (ensure ⟨whole, module⟩ key i) (ensure ⟨short, module⟩ key i) := by
  unfold ensure
  refine .get_bind fun s => ?_
  cases hget : s.registry.get? key with
  | some h =>
    simp only [State.at_registry, hget]
    exact .pure h
  | none =>
    simp only [State.at_registry, hget]
    exact shortens_register key i

theorem shortens_addAlias (key : Key) (h : Handle) :
    Shortens S (addAlias ⟨whole, module⟩ key h) (addAlias ⟨short, module⟩ key h) where
  shortened s b hs := by
    unfold addAlias
    rw [run_get_bind, run_get_bind]
    simp only [State.at_registry, State.at_graph]
    cases s.registry.addAlias key h with
    | ok registry => exact .returned hs
    | error e => exact .stopped nofun hs
  late s hs := by
    unfold addAlias
    rw [run_get_bind]
    simp only
    cases s.registry.addAlias key h with
    | ok registry => exact hs
    | error e => exact hs

theorem shortens_undefined (name reason : String) :
    Shortens S (undefined ⟨whole, module⟩ name reason) (undefined ⟨short, module⟩ name reason) := by
  unfold undefined
  refine .get_bind fun s => ?_
  cases hget : s.registry.get? (.named name) with
  | some h =>
    simp only [State.at_registry, hget]
    exact .pure h
  | none =>
    simp only [State.at_registry, hget]
    exact (shortens_report _).bind fun _ => shortens_register _ _

theorem shortens_namedKey (name : String) :
    Shortens S (namedKey name : Run σ Key) (namedKey name : Run τ Key) := by
  unfold namedKey
  split
  · exact .pure _
  · exact (shortens_needWritable _).bind fun _ => .pure _

theorem shortens_nameOf (shape : Shape) :
    Shortens S (nameOf shape : Run σ String) (nameOf shape : Run τ String) := by
  unfold nameOf
  split
  · exact .pure _
  · split
    · exact .pure _
    · refine .bind (.modify ⟨fun _ _ => rfl, fun _ => rfl, fun _ => rfl⟩) fun _ =>
        .get_bind fun s => ?_
      exact .pure _

/-! ## 3. Steps that ask the source

A question is a poll and then the question itself. After the poll both may go on, and then the
sources answer alike; or the second is over, and whatever the first asks from now on it asks
late. -/

/-- The poll, computed: it ends in what the source says, with its session moved. -/
theorem checkCancelled_eq (source : Source σ) (s : State σ) :
    checkCancelled ⟨source, module⟩ s =
      if (source.stopRequested s.session).1
      then .error (.cancelled module) (s.at (source.stopRequested s.session).2)
      else .ok () (s.at (source.stopRequested s.session).2) := by
  unfold checkCancelled
  rw [run_get_bind]
  cases source.stopRequested s.session with
  | mk stop session =>
    cases stop with
    | true => rfl
    | false => rfl

/-- The first run goes on; the second one goes on with it, or is over. -/
theorem checkCancelled_shortened {s : State σ} {b : τ} (hs : S.level s.session b) :
    ∃ a' b', checkCancelled ⟨whole, module⟩ s = .ok () (s.at a') ∧
      (checkCancelled ⟨short, module⟩ (s.at b) = .ok () (s.at b') ∧ S.free a' b' ∨
        checkCancelled ⟨short, module⟩ (s.at b) = .error (.cancelled module) (s.at b') ∧
          S.halted b' ∧ S.late a') := by
  obtain ⟨a', b', hwhole, ⟨hshort, hfree⟩ | ⟨hshort, hhalted⟩⟩ := S.polled hs
  · refine ⟨a', b', ?_, .inl ⟨?_, hfree⟩⟩
    · rw [checkCancelled_eq, hwhole]
      rfl
    · rw [checkCancelled_eq, State.at_session, hshort]
      rfl
  · refine ⟨a', b', ?_, .inr ⟨?_, hhalted⟩⟩
    · rw [checkCancelled_eq, hwhole]
      rfl
    · rw [checkCancelled_eq, State.at_session, hshort]
      rfl

/-- A late run stays late through a poll. -/
theorem late_checkCancelled {s : State σ} (hs : S.late s.session) :
    S.late (final (checkCancelled ⟨whole, module⟩ s)).session := by
  rw [checkCancelled_eq]
  split
  · exact S.late_polled hs
  · exact S.late_polled hs

/-- A step that asks whether to stop before it asks for more. -/
theorem Shortens.check_bind {next : Run σ α} {next' : Run τ α}
    (hnext : ∀ s b, S.free s.session b → Shortened S (next s) (next' (s.at b)))
    (hlate : ∀ s, S.late s.session → S.late (final (next s)).session) :
    Shortens S (checkCancelled ⟨whole, module⟩ >>= fun _ => next)
      (checkCancelled ⟨short, module⟩ >>= fun _ => next') where
  shortened s b hs := by
    -- the second is told to go on and does, or it is told to stop and the first goes on late
    obtain ⟨a', b', hwhole, ⟨hshort, hfree⟩ | ⟨hshort, hhalted, hpast⟩⟩ :=
      checkCancelled_shortened hs
    · rw [run_bind_ok hwhole, run_bind_ok hshort]
      exact hnext (s.at a') b' hfree
    · rw [run_bind_ok hwhole, run_bind_error hshort]
      exact .halted (hlate _ hpast) hhalted
  late s hs := by
    have hcheck := late_checkCancelled hs
    cases hr : checkCancelled ⟨whole, module⟩ s with
    | ok a s' =>
      rw [hr] at hcheck
      rw [run_bind_ok hr]
      exact hlate s' hcheck
    | error e s' =>
      rw [hr] at hcheck
      rw [run_bind_error hr]
      exact hcheck

variable (whole short module) in
/-- A failure of a source becomes the same failed query in both runs. -/
theorem exists_lookupStop (ref : Ref) (fault : SourceFault) :
    ∃ f, lookupStop ⟨whole, module⟩ ref fault = .query f ∧
      lookupStop ⟨short, module⟩ ref fault = .query f := by
  cases fault with
  | query f => exact ⟨f, rfl, rfl⟩
  | primitive f => exact ⟨_, rfl, rfl⟩
  | broken why => exact ⟨_, rfl, rfl⟩

variable (whole short module) in
theorem exists_pointerSizeStop (fault : SourceFault) :
    ∃ f, pointerSizeStop ⟨whole, module⟩ fault = .query f ∧
      pointerSizeStop ⟨short, module⟩ fault = .query f := by
  cases fault with
  | query f => exact ⟨f, rfl, rfl⟩
  | primitive f => exact ⟨_, rfl, rfl⟩
  | broken why => exact ⟨_, rfl, rfl⟩

/-- A reference that is answered from memory asks nobody; the memory is the same in both. -/
theorem shortens_query (ref : Ref) :
    Shortens S (query ⟨whole, module⟩ ref) (query ⟨short, module⟩ ref) := by
  unfold query
  refine .get_bind fun s => ?_
  cases hget : s.shapes.get? ref with
  | some shape =>
    simp only [State.at_shapes, hget]
    exact .pure shape
  | none =>
    simp only [State.at_shapes, hget]
    refine .check_bind (fun s b hs => ?_) fun s hs => ?_
    · obtain ⟨answer, a', b', hwhole, hshort, hlevel⟩ := S.looked hs ref
      simp only [run_get_bind, run_modify_bind, State.at_session, hwhole, hshort]
      cases answer with
      | error e =>
        obtain ⟨f, hf, hf'⟩ := exists_lookupStop whole short module ref e
        show Shortened S (.error (lookupStop ⟨whole, module⟩ ref e) (s.at a'))
          (.error (lookupStop ⟨short, module⟩ ref e) ((s.at a').at b'))
        rw [hf, hf']
        -- the sessions behind a failed look-up are not compared
        exact .failed
      | ok shape => exact .returned (hlevel shape rfl)
    · have hlate := S.late_looked hs ref
      cases hl : whole.lookup s.session module ref with
      | mk answer a' =>
        rw [hl] at hlate
        simp only [run_get_bind, run_modify_bind, hl]
        cases answer with
        | error e => exact hlate
        | ok shape => exact hlate

/-- The size of pointers is noted and asked for once; asking for it moves no session. -/
theorem shortens_pointerSize :
    Shortens S (pointerSize ⟨whole, module⟩) (pointerSize ⟨short, module⟩) := by
  unfold pointerSize
  refine .get_bind fun s => ?_
  cases hget : s.pointerSize with
  | some size =>
    simp only [State.at_pointerSize, hget]
    exact .pure size
  | none =>
    simp only [State.at_pointerSize, hget]
    refine .check_bind (fun s b hs => ?_) fun s hs => ?_
    · simp only [run_get_bind, State.at_session, ← S.sized hs]
      cases whole.pointerSize s.session module with
      | error e =>
        obtain ⟨f, hf, hf'⟩ := exists_pointerSizeStop whole short module e
        show Shortened S (.error (pointerSizeStop ⟨whole, module⟩ e) s)
          (.error (pointerSizeStop ⟨short, module⟩ e) (s.at b))
        rw [hf, hf']
        exact .failed
      | ok size => exact .returned (S.level_of_free hs)
    · simp only [run_get_bind]
      cases whole.pointerSize s.session module with
      | error e => exact hs
      | ok size => exact hs

/-! ## 4. Declaring

The functions of the declare phase, in the order of their definitions. A test on what is known
comes out the same way in both runs, so only one branch of each is compared with the same branch
of the other. -/

theorem shortens_primitive (kind : Primitive) :
    Shortens S (primitive ⟨whole, module⟩ kind) (primitive ⟨short, module⟩ kind) :=
  shortens_ensure _ _

/-- The size is given, or zero and asked for, or asked for. -/
theorem shortens_pointer (target : Handle) (size : Option Int) :
    Shortens S (pointer ⟨whole, module⟩ target size) (pointer ⟨short, module⟩ target size) := by
  unfold pointer
  refine (shortens_keyOf target).bind fun key => .get_bind fun s => ?_
  simp only [State.at_registry]
  cases s.registry.get? (Key.pointer key) with
  | some h => exact .pure h
  | none =>
    have hregister (size : Int) := shortens_register (S := S) (Key.pointer key)
      (.pointer target size)
    cases size with
    | none => exact shortens_pointerSize.bind hregister
    | some n =>
      by_cases hn : n = 0
      · simp only [hn, if_true]
        exact shortens_pointerSize.bind hregister
      · simp only [hn, if_false]
        exact (Shortens.pure n).bind hregister

theorem shortens_array (element : Handle) (length : Option Int) :
    Shortens S (array ⟨whole, module⟩ element length) (array ⟨short, module⟩ element length) := by
  unfold array
  exact (shortens_keyOf element).bind fun key => (shortens_needWritable _).bind fun _ =>
    shortens_ensure _ _

theorem shortens_applySuffix (h : Handle) (suffix : Suffix) :
    Shortens S (applySuffix ⟨whole, module⟩ h suffix) (applySuffix ⟨short, module⟩ h suffix) := by
  cases suffix with
  | array length => exact shortens_array h length
  | pointer => exact shortens_pointer h none
  | reference => exact shortens_pointer h none

theorem shortens_applySuffixes (h : Handle) (suffixes : List Suffix) :
    Shortens S (applySuffixes ⟨whole, module⟩ h suffixes)
      (applySuffixes ⟨short, module⟩ h suffixes) := by
  induction suffixes generalizing h with
  | nil => exact .pure h
  | cons suffix rest ih => exact (shortens_applySuffix h suffix).bind ih

theorem shortens_distinctMembers (owner : String) (seen : List String)
    (members : List (String × Int)) :
    Shortens S (distinctMembers ⟨whole, module⟩ owner seen members)
      (distinctMembers ⟨short, module⟩ owner seen members) := by
  induction members generalizing seen with
  | nil => exact .pure []
  | cons member rest ih =>
    unfold distinctMembers
    split
    · exact (shortens_report _).bind fun _ => ih seen
    · exact (ih _).bind fun members => .pure _

theorem shortens_argumentKeys (arguments : List TemplateArgument) :
    Shortens S (argumentKeys arguments : Run σ (List KeyArgument))
      (argumentKeys arguments : Run τ (List KeyArgument)) := by
  induction arguments with
  | nil => exact .pure []
  | cons argument rest ih =>
    cases argument with
    | number n => exact ih.bind fun keys => .pure _
    | type h => exact (shortens_keyOf h).bind fun key => ih.bind fun keys => .pure _

theorem shortens_place (key : Key) (a : Aggregate) (shape : Shape) :
    Shortens S (place ⟨whole, module⟩ key a shape) (place ⟨short, module⟩ key a shape) := by
  unfold place
  exact (shortens_register key _).bind fun h =>
    .bind (.modify ⟨fun _ _ => rfl, fun _ => rfl, fun _ => rfl⟩) fun _ => .pure h

theorem shortens_placeNew (key : Key) (a : Aggregate) (shape : Shape) :
    Shortens S (placeNew ⟨whole, module⟩ key a shape) (placeNew ⟨short, module⟩ key a shape) := by
  unfold placeNew
  refine .get_bind fun s => ?_
  simp only [State.at_registry]
  cases s.registry.get? key with
  | some h => exact .pure h
  | none => exact shortens_place key a shape

variable {declare : Ref → Run σ Handle} {declare' : Ref → Run τ Handle}
  (hdeclare : ∀ ref, Shortens S (declare ref) (declare' ref))

/-- The typedef is open during the run in both, and closed after it however it ends. -/
theorem shortens_withOpenAlias {run : Run σ α} {run' : Run τ α} (h : Shortens S run run')
    (label : String) : Shortens S (withOpenAlias label run) (withOpenAlias label run') := by
  unfold withOpenAlias
  exact h.around ⟨fun _ _ => rfl, fun _ => rfl, fun _ => rfl⟩
    ⟨fun _ _ => rfl, fun _ => rfl, fun _ => rfl⟩

include hdeclare

theorem shortens_declareAll (refs : List Ref) :
    Shortens S (declareAll declare refs) (declareAll declare' refs) := by
  induction refs with
  | nil => exact .pure []
  | cons ref rest ih => exact (hdeclare ref).bind fun h => ih.bind fun hs => .pure _

theorem shortens_declareAlias (label : String) (shape : Shape) :
    Shortens S (declareAlias ⟨whole, module⟩ declare label shape)
      (declareAlias ⟨short, module⟩ declare' label shape) := by
  unfold declareAlias
  cases shape.target with
  | none => exact shortens_undefined _ _
  | some target =>
    refine .get_bind fun s => ?_
    by_cases hopen : s.openAliases.contains label = true
    · simp only [State.at_openAliases, hopen, if_true]
      exact shortens_undefined _ _
    · simp only [State.at_openAliases, hopen]
      refine (shortens_withOpenAlias (hdeclare target) label).bind fun h => ?_
      split
      · exact (shortens_namedKey _).bind fun key => (shortens_addAlias key h).bind fun _ => .pure h
      · exact .pure h

/-- The key is looked up in both registries, which are one; what follows the underlying type is
the same for both ways to it. -/
theorem shortens_declareEnumeration (shape : Shape) :
    Shortens S (declareEnumeration ⟨whole, module⟩ declare shape)
      (declareEnumeration ⟨short, module⟩ declare' shape) := by
  unfold declareEnumeration
  refine (shortens_nameOf shape).bind fun name => (shortens_namedKey name).bind fun key =>
    .get_bind fun s => ?_
  simp only [State.at_registry]
  cases s.registry.get? key with
  | some h => exact .pure h
  | none =>
    have hrest (underlying : Handle) :=
      (shortens_distinctMembers (S := S) name [] shape.members).bind fun members =>
        shortens_register (S := S) key (.enumeration
          { name := (splitName name).2, scope := (splitName name).1, underlying, members })
    cases shape.underlying with
    | some ref => exact (hdeclare ref).bind hrest
    | none => exact (shortens_primitive _).bind hrest

theorem shortens_declareFunction (shape : Shape) :
    Shortens S (declareFunction ⟨whole, module⟩ declare shape)
      (declareFunction ⟨short, module⟩ declare' shape) := by
  unfold declareFunction
  have hrest (result : Handle) :=
    (shortens_declareAll hdeclare shape.parameters).bind fun parameters =>
      (shortens_keyOf (S := S) result).bind fun key =>
        (shortens_keysOf (S := S) parameters).bind fun keys =>
          shortens_ensure (S := S) (Key.function key keys shape.variadic) (.function
            { result, parameters, variadic := shape.variadic,
              name := if shape.name.isEmpty then none else some shape.name })
  cases shape.result with
  | some ref => exact (hdeclare ref).bind hrest
  | none => exact (shortens_primitive _).bind hrest

theorem shortens_declareArguments (arguments : List Argument) :
    Shortens S (declareArguments declare arguments) (declareArguments declare' arguments) := by
  induction arguments with
  | nil => exact .pure []
  | cons argument rest ih =>
    cases argument with
    | number n => exact ih.bind fun arguments => .pure _
    | type t =>
      exact (shortens_needWritable _).bind fun _ => (hdeclare _).bind fun h =>
        ih.bind fun arguments => .pure _

theorem shortens_declareAggregate (shape : Shape) :
    Shortens S (declareAggregate ⟨whole, module⟩ declare shape)
      (declareAggregate ⟨short, module⟩ declare' shape) := by
  unfold declareAggregate
  refine (shortens_nameOf shape).bind fun name => ?_
  cases (TypeName.parsePlain? name).filter TypeName.isTemplate with
  | some t =>
    exact (shortens_declareArguments hdeclare _).bind fun arguments =>
      (shortens_argumentKeys arguments).bind fun keys => (shortens_needWritable _).bind fun _ =>
        shortens_placeNew _ _ _
  | none => exact (shortens_namedKey name).bind fun key => shortens_placeNew _ _ _

theorem shortens_declareShape (label : String) (answer : Option Shape) :
    Shortens S (declareShape ⟨whole, module⟩ declare label answer)
      (declareShape ⟨short, module⟩ declare' label answer) := by
  cases answer with
  | none => exact shortens_undefined _ _
  | some shape =>
    unfold declareShape
    simp only
    cases shape.kind with
    | primitive => exact shortens_primitive _
    | pointer =>
      cases shape.target with
      | none => exact (shortens_primitive _).bind fun h => shortens_pointer h _
      | some target => exact (hdeclare target).bind fun h => shortens_pointer h _
    | array =>
      cases shape.target with
      | none => exact shortens_undefined _ _
      | some target => exact (hdeclare target).bind fun h => shortens_array h _
    | typedef => exact shortens_declareAlias hdeclare label shape
    | enumeration => exact shortens_declareEnumeration hdeclare shape
    | function => exact shortens_declareFunction hdeclare shape
    | struct => exact shortens_declareAggregate hdeclare shape
    | union => exact shortens_declareAggregate hdeclare shape
    | unsupported => exact shortens_undefined _ _

theorem shortens_declareDescribed (label : String) (ref : Ref) :
    Shortens S (declareDescribed ⟨whole, module⟩ declare label ref)
      (declareDescribed ⟨short, module⟩ declare' label ref) :=
  (shortens_query ref).bind fun answer => shortens_declareShape hdeclare label answer

theorem shortens_declareName (text : String) :
    Shortens S (declareName ⟨whole, module⟩ declare text)
      (declareName ⟨short, module⟩ declare' text) := by
  unfold declareName
  cases TypeName.parse text with
  | error e => exact shortens_undefined _ _
  | ok t =>
    refine (shortens_needWritable _).bind fun _ => ?_
    split
    · exact (hdeclare _).bind fun h => shortens_applySuffixes h _
    · split
      · exact hdeclare _
      · exact shortens_declareDescribed hdeclare text _

/-- What was declared before is returned; else the reference is declared and remembered. -/
theorem shortens_declareOnce (ref : Ref) :
    Shortens S (declareOnce ⟨whole, module⟩ declare ref)
      (declareOnce ⟨short, module⟩ declare' ref) := by
  unfold declareOnce
  refine .get_bind fun s => ?_
  simp only [State.at_declared]
  cases s.declared.get? ref with
  | some h => exact .pure h
  | none =>
    refine .bind ?_ fun h =>
      .bind (.modify ⟨fun _ _ => rfl, fun _ => rfl, fun _ => rfl⟩) fun _ => .pure h
    cases ref with
    | name text => exact shortens_declareName hdeclare text
    | id n => exact shortens_declareDescribed hdeclare _ _

omit hdeclare

/-- References are followed to the same depth in both runs. -/
theorem shortens_declare (n : Nat) (ref : Ref) :
    Shortens S (Resolver.declare ⟨whole, module⟩ n ref)
      (Resolver.declare ⟨short, module⟩ n ref) := by
  induction n generalizing ref with
  | zero => exact .throw nofun
  | succ n ih => exact shortens_declareOnce ih ref

/-! ## 5. Defining

The define phase differs from the declare phase in one point: it goes on after a stop. A value
cycle is caught at each aggregate that it goes through (`defineCaught`), so the two runs have to
be compared behind a stop, and there it counts that a value cycle is no failed query. -/

theorem shortens_finalize (h : Handle) :
    Shortens S (finalize h : Run σ Unit) (finalize h : Run τ Unit) :=
  .modify ⟨fun _ _ => rfl, fun _ => rfl, fun _ => rfl⟩

theorem shortens_markInvalid (h : Handle) (reason : String) :
    Shortens S (markInvalid h reason : Run σ Unit) (markInvalid h reason : Run τ Unit) :=
  .modify ⟨fun _ _ => rfl, fun _ => rfl, fun _ => rfl⟩

theorem shortens_changeGraph (f : Graph → Except ChangeFault Graph) :
    Shortens S (changeGraph f : Run σ Unit) (changeGraph f : Run τ Unit) :=
  .modify ⟨fun _ _ => rfl, fun _ => rfl, fun _ => rfl⟩

theorem shortens_cycleFrom (h : Handle) :
    Shortens S (cycleFrom h : Run σ (List Key)) (cycleFrom h : Run τ (List Key)) := by
  unfold cycleFrom
  exact .get_bind fun s => shortens_keysOf _

/-- The check reads the graph, and marks and reports what does not fit. -/
theorem shortens_checkLayout (h : Handle) :
    Shortens S (checkLayout ⟨whole, module⟩ h) (checkLayout ⟨short, module⟩ h) := by
  unfold checkLayout
  refine .get_bind fun s => ?_
  simp only [State.at_graph]
  cases s.graph.get h with
  | aggregate a =>
    simp only
    cases s.graph.layoutFault? a with
    | none => exact .pure ()
    | some fault =>
      exact (shortens_keyOf h).bind fun key => (shortens_needWritable _).bind fun _ =>
        (shortens_markInvalid h _).bind fun _ => shortens_report _
  | _ => exact .pure ()

theorem shortens_meetCycle (h : Handle) (path : List Key) :
    Shortens S (meetCycle ⟨whole, module⟩ h path) (meetCycle ⟨short, module⟩ h path) := by
  unfold meetCycle
  refine (shortens_markInvalid h _).bind fun _ => (shortens_finalize h).bind fun _ =>
    (shortens_keyOf h).bind fun key => ?_
  split
  · exact shortens_report _
  · exact .throw nofun

/-- Taking a shape, computed: the aggregate must have been placed and wait for its definition. -/
theorem takeShape_eq (h : Handle) (s : State σ) :
    takeShape h s =
      match s.placed.get? h with
      | none => .error .noShape s
      | some shape =>
        if s.placeholders.contains h
        then .ok shape { s with placeholders := s.placeholders.erase h }
        else .error .noShape s := by
  unfold takeShape
  rw [run_get_bind]
  cases s.placed.get? h with
  | none => rfl
  | some shape =>
    by_cases hwaits : s.placeholders.contains h = true
    · simp only [hwaits]
      rfl
    · simp only [hwaits]
      rfl

/-- It waits in both or in neither. -/
theorem shortens_takeShape (h : Handle) :
    Shortens S (takeShape h : Run σ Shape) (takeShape h : Run τ Shape) where
  shortened s b hs := by
    rw [takeShape_eq, takeShape_eq, State.at_placed, State.at_placeholders]
    cases s.placed.get? h with
    | none => exact .stopped nofun hs
    | some shape =>
      simp only
      split
      · exact .returned hs
      · exact .stopped nofun hs
  late s hs := by
    rw [takeShape_eq]
    cases s.placed.get? h with
    | none => exact hs
    | some shape =>
      simp only
      split
      · exact hs
      · exact hs

variable {define : Handle → Run σ Unit} {define' : Handle → Run τ Unit}
  (hdefine : ∀ h, Shortens S (define h) (define' h))

/-- The aggregate is being defined during the run in both, and not afterwards. -/
theorem shortens_whileDefining {run : Run σ α} {run' : Run τ α} (hrun : Shortens S run run')
    (h : Handle) : Shortens S (whileDefining h run) (whileDefining h run') := by
  unfold whileDefining
  exact hrun.around ⟨fun _ _ => rfl, fun _ => rfl, fun _ => rfl⟩
    ⟨fun _ _ => rfl, fun _ => rfl, fun _ => rfl⟩

include hdefine

/-- What is embedded and not finalized is defined first, in both. -/
theorem shortens_defineValue (h : Handle) :
    Shortens S (defineValue define h) (defineValue define' h) := by
  unfold defineValue
  refine .get_bind fun s => ?_
  simp only [State.at_graph]
  cases s.graph.get (innermost s.graph h) with
  | aggregate a =>
    cases hfinal : a.isFinalized with
    | false =>
      simp only [hfinal]
      exact hdefine _
    | true =>
      simp only [hfinal]
      exact .pure ()
  | _ => exact .pure ()

include hdeclare

theorem shortens_definePart (ref : Ref) :
    Shortens S (definePart declare define ref) (definePart declare' define' ref) :=
  (hdeclare ref).bind fun h => (shortens_defineValue hdefine h).bind fun _ => .pure h

theorem shortens_defineBases (owner : Handle) (bases : List BaseShape) :
    Shortens S (defineBases declare define owner bases)
      (defineBases declare' define' owner bases) := by
  induction bases with
  | nil => exact .pure ()
  | cons b rest ih =>
    exact (shortens_definePart hdeclare hdefine b.type).bind fun type =>
      (shortens_changeGraph _).bind fun _ => ih

theorem shortens_defineFields (owner : Handle) (fields : List FieldShape) :
    Shortens S (defineFields declare define owner fields)
      (defineFields declare' define' owner fields) := by
  induction fields with
  | nil => exact .pure ()
  | cons f rest ih =>
    exact (shortens_definePart hdeclare hdefine f.type).bind fun type =>
      (shortens_changeGraph _).bind fun _ => ih

theorem shortens_defineBody (h : Handle) (shape : Shape) :
    Shortens S (defineBody ⟨whole, module⟩ declare define h shape)
      (defineBody ⟨short, module⟩ declare' define' h shape) :=
  (shortens_defineBases hdeclare hdefine h _).bind fun _ =>
    (shortens_defineFields hdeclare hdefine h _).bind fun _ => shortens_checkLayout h

/-- A stop is no cycle: the second run does not go on with what the first one met. -/
theorem shortens_defineCaught (h : Handle) (shape : Shape) :
    Shortens S (defineCaught ⟨whole, module⟩ declare define h shape)
      (defineCaught ⟨short, module⟩ declare' define' h shape) where
  late s hs := by
    have hbody := (shortens_defineBody hdeclare hdefine h shape).late s hs
    unfold defineCaught
    cases hr : defineBody ⟨whole, module⟩ declare define h shape s with
    | ok a s' =>
      rw [hr] at hbody
      exact hbody
    | error e s' =>
      rw [hr] at hbody
      cases e with
      | valueCycle path => exact (shortens_meetCycle h path).late s' hbody
      | _ => exact hbody
  shortened s b hs := by
    have hbody := (shortens_defineBody hdeclare hdefine h shape).shortened s b hs
    unfold defineCaught
    generalize hr' : defineBody ⟨short, module⟩ declare' define' h shape (s.at b) = r' at hbody
    cases hr : defineBody ⟨whole, module⟩ declare define h shape s with
    | ok a s' =>
      rw [hr] at hbody
      cases hbody with
      | returned hlevel => exact .returned hlevel
      | halted hlate hhalted => exact .halted hlate hhalted
    | error e s' =>
      rw [hr] at hbody
      cases hbody with
      | stopped he hlevel =>
        cases e with
        | valueCycle path => exact (shortens_meetCycle h path).shortened s' _ hlevel
        | query fault => exact absurd rfl (he fault)
        | _ => exact .stopped nofun hlevel
      | failed => exact .failed
      -- the first run meets the cycle after its stop was due; the second does not get there
      | halted hlate hhalted =>
        refine .halted ?_ hhalted
        cases e with
        | valueCycle path => exact (shortens_meetCycle h path).late s' hlate
        | _ => exact hlate

/-- An aggregate that is being defined already closes a cycle, in both. -/
theorem shortens_defineOnce (h : Handle) :
    Shortens S (defineOnce ⟨whole, module⟩ declare define h)
      (defineOnce ⟨short, module⟩ declare' define' h) := by
  unfold defineOnce
  refine .get_bind fun s => ?_
  have hrest := (shortens_takeShape (S := S) h).bind fun shape =>
    shortens_whileDefining (shortens_defineCaught hdeclare hdefine h shape) h
  by_cases hdefining : s.defining.contains h = true
  · simp only [State.at_defining, hdefining, if_true]
    exact (shortens_cycleFrom h).bind fun path =>
      (Shortens.throw (e := .valueCycle path) nofun).bind fun _ => hrest
  · simp only [State.at_defining, hdefining]
    exact (Shortens.pure ()).bind fun _ => hrest

omit hdeclare hdefine

/-- Aggregates inside aggregates are defined to the same depth in both runs. -/
theorem shortens_define (depth n : Nat) (h : Handle) :
    Shortens S (Resolver.define ⟨whole, module⟩ depth n h)
      (Resolver.define ⟨short, module⟩ depth n h) := by
  induction n generalizing h with
  | zero => exact .throw nofun
  | succ n ih => exact shortens_defineOnce (shortens_declare depth) ih h

theorem shortens_drain (depth n : Nat) :
    Shortens S (drain ⟨whole, module⟩ depth n) (drain ⟨short, module⟩ depth n) := by
  induction n with
  | zero =>
    unfold drain
    refine .get_bind fun s => ?_
    cases hlist : s.worklist.isEmpty with
    | true =>
      simp only [State.at_worklist, hlist]
      exact .pure ()
    | false =>
      simp only [State.at_worklist, hlist]
      exact .throw nofun
  | succ n ih =>
    unfold drain
    refine .get_bind fun s => ?_
    simp only [State.at_worklist]
    cases s.worklist with
    | nil => exact .pure ()
    | cons h rest =>
      refine Shortens.bind (.modify ⟨fun _ _ => rfl, fun _ => rfl, fun _ => rfl⟩) fun _ =>
        .get_bind fun t => ?_
      cases hfinal : (t.graph.get h).isFinalized with
      | false =>
        simp only [State.at_graph, hfinal]
        exact (shortens_define depth depth h).bind fun _ => ih
      | true =>
        simp only [State.at_graph, hfinal]
        exact (Shortens.pure ()).bind fun _ => ih

/-- **Resolving a reference with the second source is resolving it with the first one, or
stopping on the way.** -/
theorem shortens_resolve (limits : Limits) (ref : Ref) :
    Shortens S (resolve ⟨whole, module⟩ limits ref) (resolve ⟨short, module⟩ limits ref) :=
  (shortens_declare limits.depth ref).bind fun root =>
    (shortens_drain limits.depth limits.total).bind fun _ => .pure root

end Resolver

end NativeTypes
