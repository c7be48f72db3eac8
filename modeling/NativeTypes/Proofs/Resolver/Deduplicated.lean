/-
NativeTypes.Proofs.Resolver.Deduplicated — one instance for all spellings of a
type, however many requests there are between them.

The tables of a resolver agree after every request (`Consistent`), also after
one that stopped, so what two spellings were resolved to is the base of the
type wrapped by its suffixes, and that is one instance. If nothing failed since
the first spelling was resolved, everything that the second one needs is
remembered: the source is not asked and nothing is reported.

The first half is about results and the second about a run. For the first it is
enough that both spellings are in the table at the end, in whatever order they
came. For the second the run of the second request is computed: a name whose
text was not met is declared by its base, the base is remembered, and each
suffix leads to an instance that is registered. No more than two references are
followed, however long the name is, since a remembered one leads no further.

That nothing is left on the worklist is needed too. A request defines all that
waits, and what an earlier one left there would be asked for now.
-/
import NativeTypes.Proofs.Resolver.Remembered

namespace NativeTypes.Resolver

variable {σ : Type} {task : Task σ} {describe : Description} {valid : σ → Prop} {s s' : State σ}

/-! ## 1. Spellings -/

/-- Two spellings of a type that were declared stand for one instance. -/
theorem Consistent.eq_of_spelled (hs : Consistent describe valid s) {text text' : String}
    {u : TypeName}
    (hu : TypeName.parse text = .ok u) (hu' : TypeName.parse text' = .ok u) {h h' : Handle}
    (hh : s.declared.get? (.name text) = some h) (hh' : s.declared.get? (.name text') = some h') :
    h = h' := by
  obtain ⟨-, base, hbase, hwraps⟩ := hs.spelled text h u hh hu
  obtain ⟨-, base', hbase', hwraps'⟩ := hs.spelled text' h' u hh' hu'
  cases hbase.symm.trans hbase'
  exact hwraps.eq hwraps'

/-- A remembered reference is answered from the table. -/
theorem declare_known {ref : Ref} {h : Handle} (hh : s.declared.get? ref = some h) (n : Nat) :
    declare task (n + 1) ref s = .ok h s := by
  simp only [declare, declareOnce, run_get_bind, hh]
  rfl

/-- A suffix that was applied before leads to the instance it led to then. -/
theorem applySuffix_known {h next : Handle} {suffix : Suffix} {key : Key}
    (hwritable : suffix.isWritable = true) (hkey : s.registry.keyOf? h = some key)
    (hnext : s.registry.get? (suffix.key key) = some next) :
    applySuffix task h suffix s = .ok next s := by
  have hkeyOf : keyOf h s = .ok key s := by
    simp only [keyOf, run_get_bind, hkey]
    rfl
  have hpointer (hget : s.registry.get? key.pointer = some next) :
      pointer task h none s = .ok next s := by
    unfold pointer
    rw [run_bind_ok hkeyOf]
    simp only [run_get_bind, hget]
    rfl
  cases suffix with
  | pointer => exact hpointer hnext
  | reference => exact hpointer hnext
  | array length =>
    have hneed : (needWritable (length.all Text.isWritable) : Run σ Unit) s = .ok () s := by
      unfold needWritable
      rw [if_pos]
      · rfl
      · cases length with
        | none => rfl
        | some n => simpa only [Suffix.isWritable, Option.all_some] using hwritable
    have hget : s.registry.get? (.array key length) = some next := hnext
    show array task h length s = _
    unfold array
    rw [run_bind_ok hkeyOf, run_bind_ok hneed]
    simp only [ensure, run_get_bind, hget]
    rfl

/-- Suffixes lead to what is registered along them. -/
theorem applySuffixes_known {suffixes : List Suffix} {h last : Handle}
    (hw : s.registry.Wraps h suffixes last) :
    applySuffixes task h suffixes s = .ok last s := by
  induction suffixes generalizing h with
  | nil =>
    obtain rfl : h = last := hw
    rfl
  | cons suffix rest ih =>
    obtain ⟨hwritable, key, next, hkey, hnext, hrest⟩ := hw
    unfold applySuffixes
    rw [run_bind_ok (applySuffix_known hwritable hkey hnext)]
    exact ih hrest

/-- **Another spelling of a declared type is declared from what is remembered**, if two references
may be followed. -/
theorem declare_respelled (hs : Consistent describe valid s) {text text' : String} {u : TypeName}
    (hu : TypeName.parse text = .ok u) (hu' : TypeName.parse text' = .ok u) {h : Handle}
    (hh : s.declared.get? (.name text) = some h) (n : Nat) :
    Ensures (declare task n (.name text')) s
      (fun h' s' => h' = h ∧ ∃ declared, s' = { s with declared })
      fun _ s' => s' = s ∧ n < 2 := by
  cases n with
  | zero => exact ⟨rfl, by decide⟩
  | succ n =>
    cases hknown : s.declared.get? (.name text') with
    | some h' =>
      unfold Ensures
      rw [declare_known hknown]
      exact ⟨(hs.eq_of_spelled hu hu' hh hknown).symm, s.declared, rfl⟩
    | none =>
      obtain ⟨hwritable, base, hbase, hwraps⟩ := hs.spelled text h u hh hu
      have hneed : (needWritable u.withoutSuffixes.isWritable : Run σ Unit) s = .ok () s := by
        unfold needWritable
        rw [if_pos hwritable]
        rfl
      -- the base is remembered, so one more reference is followed
      have hname : declareName task (declare task n) text' s =
          (declare task n (.name u.withoutSuffixes.format) >>= fun b =>
            applySuffixes task b u.wrapping) s := by
        simp only [declareName, hu']
        rw [run_bind_ok hneed]
        cases hsuffixes : u.suffixes with
        | cons suffix rest => rfl
        | nil =>
          have hself : u.withoutSuffixes = u ∧ u.wrapping = [] := by
            cases u
            obtain rfl : _ = [] := hsuffixes
            exact ⟨rfl, rfl⟩
          have hformat : u.format ≠ text' := by
            rintro rfl
            rw [hself.1, hknown] at hbase
            cases hbase
          rw [if_neg (by simp), if_pos hformat, hself.1, hself.2]
          exact (congrFun (bind_pure _) s).symm
      unfold Ensures
      simp only [declare, declareOnce, run_get_bind, hknown, declareNew]
      cases n with
      | zero =>
        have hstop : declareName task (declare task 0) text' s = .error .tooDeep s := by
          rw [hname]
          rfl
        rw [run_bind_error hstop]
        exact ⟨rfl, by decide⟩
      | succ n =>
        have hok : declareName task (declare task (n + 1)) text' s = .ok h s := by
          rw [hname, run_bind_ok (declare_known hbase n)]
          exact applySuffixes_known hwraps
        rw [run_bind_ok hok]
        exact ⟨rfl, _, rfl⟩

/-! ## 2. Requests -/

/-- Nothing waits when a request has returned. -/
theorem worklist_of_drain {depth n : Nat} (hrun : drain task depth n s = .ok () s') :
    s'.worklist = [] := by
  induction n generalizing s with
  | zero =>
    cases hlist : s.worklist with
    | nil =>
      rw [drain_nil depth 0 hlist] at hrun
      cases hrun
      exact hlist
    | cons h rest => simp [drain, hlist] at hrun
  | succ n ih =>
    cases hlist : s.worklist with
    | nil =>
      rw [drain_nil depth (n + 1) hlist] at hrun
      cases hrun
      exact hlist
    | cons h rest =>
      rw [drain_cons depth n hlist] at hrun
      split at hrun
      · exact ih hrun
      · obtain ⟨_, t, -, hrest⟩ := bind_eq_ok hrun
        exact ih hrest

/-- A request that returned left nothing to do, and it remembers what it returned. -/
theorem of_resolve_ok (hw : WellFormed s) {limits : Limits} {ref : Ref} {root : Handle}
    (hrun : resolve task limits ref s = .ok root s') :
    s'.worklist = [] ∧ s'.declared.get? ref = some root := by
  obtain ⟨root', t, hdeclare, hrest⟩ := bind_eq_ok hrun
  obtain ⟨_, u, hdrain, hret⟩ := bind_eq_ok hrest
  cases hret
  obtain ⟨hw', -, -, hdeclared⟩ := (declares_declare task limits.depth s ref hw).of_ok hdeclare
  refine ⟨worklist_of_drain hdrain, ?_⟩
  have hmoved := (moves_drain task limits.depth limits.total hw').of_ok hdrain
  clear hdrain hrun hrest
  induction hmoved with
  | refl => exact hdeclared
  | tail _ hlast ih =>
    cases hlast with
    | declared hw hrun => exact ((declares_declare task _ _ _ hw).of_ok hrun).2.1.declared _ _ ih
    | stopped hw hrun => exact ((declares_declare task _ _ _ hw).of_error hrun).2.1.declared _ _ ih
    | silent hchange =>
      have hknown := hchange.known_eq
      simp only [known, Prod.mk.injEq] at hknown
      rw [hknown.2.2.1]
      exact ih

/-- Nothing is left to do as long as requests return. -/
theorem worklist_of_returned (hw : WellFormed s) (hs : s.worklist = [])
    (h : Relation.ReflTransGen (Returned task) s s') : s'.worklist = [] := by
  induction h with
  | refl => exact hs
  | tail hfirst hlast _ =>
    obtain ⟨limits, ref, root, hrun⟩ := hlast
    exact (of_resolve_ok (Requests.wellFormed (requests_of_returned hfirst) hw).1 hrun).1

/-- Another spelling is resolved from what is remembered, if nothing is left to do. -/
theorem resolve_respelled (hs : Consistent describe valid s) (hlist : s.worklist = [])
    {text text' : String} {u : TypeName} (hu : TypeName.parse text = .ok u)
    (hu' : TypeName.parse text' = .ok u) {h : Handle}
    (hh : s.declared.get? (.name text) = some h) (limits : Limits) :
    Ensures (resolve task limits (.name text')) s
      (fun h' s' => h' = h ∧ s'.session = s.session ∧ s'.diagnostics = s.diagnostics)
      fun _ s' => s' = s ∧ limits.depth < 2 := by
  have hdeclare : Ensures (declare task limits.depth (.name text')) s _ _ :=
    declare_respelled hs hu hu' hh limits.depth
  unfold resolve Ensures
  cases hr : declare task limits.depth (.name text') s with
  | error e t =>
    rw [run_bind_error hr]
    exact hdeclare.of_error hr
  | ok h' t =>
    obtain ⟨rfl, declared, rfl⟩ := hdeclare.of_ok hr
    have hdrain : drain task limits.depth limits.total { s with declared } =
        .ok () { s with declared } := drain_nil limits.depth limits.total hlist
    rw [run_bind_ok hr, run_bind_ok hdrain]
    exact ⟨rfl, rfl, rfl⟩

/-! ## 3. Over time -/

/-- **Types are deduplicated across spellings and over time.** The source answers from tables,
but may lose any look-up and may be stopped at any moment; no typedef is reached again while its
own target is being declared. After any number of requests, returned or stopped:

* no reference was answered twice, and every name that was asked about is canonical;
* whatever is requested next, no key is bound again and no primary key changes;
* two spellings of one type are resolved to the same instance, whatever was requested in between;
  and if all that returned, the second spelling asks the source nothing and reports nothing, and
  returns as soon as two references may be followed. -/
theorem resolve_deduplicated {source : Source σ} {c : Catalog} {module : String}
    {valid : σ → Prop} (hc : c.Built) (hsource : AnswersFrom source c module valid)
    (hre : NoReentry (c.describe module)) {session : σ} (hvalid : valid session)
    {s : State (σ × List LookUp)}
    (hs : Requests ⟨source.recorded, module⟩ (State.start (session, [])) s) :
    ((answeredRefs s.session.2).Nodup ∧ ∀ l ∈ s.session.2, IsNormal l.ref) ∧
      (∀ s', Requests ⟨source.recorded, module⟩ s s' → s.registry.Widens s'.registry) ∧
      ∀ (limits : Limits) (text : String) (u : TypeName) (root : Handle)
        (s₁ : State (σ × List LookUp)), TypeName.parse text = .ok u →
        resolve ⟨source.recorded, module⟩ limits (.name text) s = .ok root s₁ →
        ∀ text', TypeName.parse text' = .ok u → ∀ limits' : Limits,
          (∀ s₂ root' s₃, Requests ⟨source.recorded, module⟩ s₁ s₂ →
            resolve ⟨source.recorded, module⟩ limits' (.name text') s₂ = .ok root' s₃ →
            root' = root) ∧
          ∀ s₂, Relation.ReflTransGen (Returned ⟨source.recorded, module⟩) s₁ s₂ →
            Ensures (resolve ⟨source.recorded, module⟩ limits' (.name text')) s₂
              (fun root' s₃ => root' = root ∧ s₃.session = s₂.session ∧
                s₃.diagnostics = s₂.diagnostics)
              fun _ s₃ => s₃ = s₂ ∧ limits'.depth < 2 := by
  have hd := hsource.recorded.describes hc
  have hattempted : Attempted ⟨source.recorded, module⟩ (fun s => valid s.1) s :=
    ⟨(session, []), hvalid, hs⟩
  have hrecord := fairRecord_of_requests hc hsource hvalid hs
  refine ⟨⟨hrecord.nodup, hrecord.normal⟩, fun s' h => h.widens hattempted.wellFormed, ?_⟩
  intro limits text u root s₁ hu hrun text' hu' limits'
  -- the first spelling is remembered from its own request on
  have hafter : Requests ⟨source.recorded, module⟩ s s₁ := .single (.returned hrun)
  have hw₁ := (hafter.wellFormed hattempted.wellFormed).1
  obtain ⟨hlist, hdeclared⟩ := of_resolve_ok hattempted.wellFormed hrun
  have hlater {t : State (σ × List LookUp)} (ht : Requests ⟨source.recorded, module⟩ s₁ t) :
      Attempted ⟨source.recorded, module⟩ (fun s => valid s.1) t ∧
        t.declared.get? (.name text) = some root :=
    ⟨⟨_, hvalid, (hs.trans hafter).trans ht⟩, ht.declared hw₁ hdeclared⟩
  refine ⟨fun s₂ root' s₃ h₂ hrun' => ?_, fun s₂ h₂ => ?_⟩
  · have h₃ : Requests ⟨source.recorded, module⟩ s₁ s₃ := h₂.tail (.returned hrun')
    obtain ⟨hattempted₃, hdeclared₃⟩ := hlater h₃
    exact ((hattempted₃.consistent hd hre).1.eq_of_spelled hu hu' hdeclared₃
      (of_resolve_ok (hlater h₂).1.wellFormed hrun').2).symm
  · obtain ⟨hattempted₂, hdeclared₂⟩ := hlater (requests_of_returned h₂)
    exact resolve_respelled (hattempted₂.consistent hd hre).1 (worklist_of_returned hw₁ hlist h₂)
      hu hu' hdeclared₂ limits'

/-- The tables of one struct and of a typedef for pointers to it. -/
def pointerTables : Catalog :=
  (Catalog.add {} "m" (Shape.ofAggregate "Foo" (some 4) [] [] false) none).add "m"
    (Shape.ofAlias "FooPtr" (.name "Foo *")) none

/-- The typedef asks for the pointer, which asks for the struct. -/
theorem noReentry_pointerTables : NoReentry (pointerTables.describe "m") := by
  have htypedef {ref : Ref} {shape : Shape} (hshows : Shows (pointerTables.describe "m") ref shape)
      (hkind : shape.kind = .typedef) : ref = .name "FooPtr" := by
    have hnames : (pointerTables.tables.get? "m").map ModuleTable.byName = some
        [("Foo", Shape.ofAggregate "Foo" (some 4) [] [] false),
          ("FooPtr", Shape.ofAlias "FooPtr" (.name "Foo *"))] := by decide +kernel
    have hids : (pointerTables.tables.get? "m").map ModuleTable.byId = some [] := by
      decide +kernel
    obtain ⟨table, htable, hnames⟩ := Option.map_eq_some_iff.mp hnames
    obtain ⟨_, htable', hids⟩ := Option.map_eq_some_iff.mp hids
    cases htable.symm.trans htable'
    cases ref with
    | id n =>
      obtain ⟨_, htable', hlookup⟩ := Catalog.lookup_of_describe hshows.eq
      cases htable.symm.trans htable'
      rw [ModuleTable.lookup, hids] at hlookup
      cases hlookup
    | name text =>
      have hlisted := Catalog.listed_of_describe hshows.described hshows.eq (by simp [hkind])
      simp only [Catalog.listed?, htable, Option.bind_some, hnames, Assoc.get?] at hlisted
      split at hlisted
      · cases hlisted
        cases hkind
      · split at hlisted
        · rename_i heq
          rw [← heq]
        · cases hlisted
  have hreached {r : Ref} (h : Relation.TransGen (AsksFor (pointerTables.describe "m"))
      (.name "FooPtr") r) : r = .name "Foo *" ∨ r = .name "Foo" := by
    have htarget : calls (pointerTables.describe "m") (.name "FooPtr") =
        [⟨some "FooPtr", .name "Foo *"⟩] := by decide +kernel
    have hpointer : calls (pointerTables.describe "m") (.name "Foo *") = [.to (.name "Foo")] := by
      decide +kernel
    have hstruct : calls (pointerTables.describe "m") (.name "Foo") = [] := by decide +kernel
    induction h with
    | single hasks =>
      obtain ⟨c, hc, rfl⟩ := hasks
      rw [htarget] at hc
      exact .inl (by rw [List.mem_singleton.mp hc])
    | tail _ hasks ih =>
      obtain ⟨c, hc, rfl⟩ := hasks
      rcases ih with rfl | rfl
      · rw [hpointer] at hc
        exact .inr (by rw [List.mem_singleton.mp hc]; rfl)
      · rw [hstruct] at hc
        cases hc
  intro ref shape hshows hkind hagain
  obtain rfl := htypedef hshows hkind
  rcases hreached hagain with h | h
  · exact absurd h (by decide)
  · exact absurd h (by decide)

/-- The text is read as a pointer to `Foo`. -/
def isFooPointer (text : String) : Bool :=
  match TypeName.parse text with
  | .ok (.mk (.path [] (.plain name)) [.pointer]) => name = "Foo"
  | _ => false

theorem parse_of_isFooPointer {text : String} (h : isFooPointer text = true) :
    TypeName.parse text = .ok (.mk (.path [] (.plain "Foo")) [.pointer]) := by
  unfold isFooPointer at h
  split at h
  · rename_i name hparse
    rw [hparse, of_decide_eq_true h]
  · cases h

/-- A session over these tables that loses one name, and writes down what it is asked. -/
def pointerTask : Task (Session × List LookUp) :=
  ⟨(Session.source { lost := [.name "Bar"] }).recorded, "m"⟩

/-- After a request that failed, the pointer is resolved by two of its spellings. -/
theorem resolve_deduplicated_pointer : ∃ s root s₁ root' s₂,
    Requests pointerTask (State.start (⟨pointerTables, false⟩, [])) s ∧
      s.session.2 = [⟨.name "Bar", false⟩] ∧
      resolve pointerTask ⟨8, 8⟩ (.name "Foo *") s = .ok root s₁ ∧
      resolve pointerTask ⟨8, 8⟩ (.name "const Foo*") s₁ = .ok root' s₂ ∧
      root' = root ∧ s₂.session = s₁.session := by
  have hruns : stops (resolve pointerTask ⟨8, 8⟩ (.name "Bar"))
      (State.start (⟨pointerTables, false⟩, [])) (fun _ s =>
        decide (s.session.2 = [⟨.name "Bar", false⟩]) &&
        returns (resolve pointerTask ⟨8, 8⟩ (.name "Foo *")) s fun _ s₁ =>
          returns (resolve pointerTask ⟨8, 8⟩ (.name "const Foo*")) s₁ fun _ _ => true) = true := by
    decide +kernel
  obtain ⟨e, s, hfail, hruns⟩ := exists_of_stops hruns
  obtain ⟨hrecord, hruns⟩ := Bool.and_eq_true_iff.mp hruns
  obtain ⟨root, s₁, hfirst, hruns⟩ := exists_of_returns hruns
  obtain ⟨root', s₂, hsecond, -⟩ := exists_of_returns hruns
  have hs : Requests pointerTask (State.start (⟨pointerTables, false⟩, [])) s :=
    .single (.stopped hfail)
  have hfirstName := parse_of_isFooPointer (show isFooPointer "Foo *" = true by decide +kernel)
  have hsecondName := parse_of_isFooPointer
    (show isFooPointer "const Foo*" = true by decide +kernel)
  have hc : pointerTables.Built := (Catalog.Built.empty.add "m" _ none).add "m" _ none
  obtain ⟨-, -, hspelled⟩ := resolve_deduplicated hc
    (answersFrom_session { lost := [.name "Bar"] } pointerTables "m") noReentry_pointerTables
    rfl hs
  obtain ⟨-, hagain⟩ := hspelled _ _ _ root s₁ hfirstName hfirst "const Foo*" hsecondName ⟨8, 8⟩
  obtain ⟨hroot, hsession, -⟩ := (hagain s₁ .refl).of_ok hsecond
  exact ⟨s, root, s₁, root', s₂, hs, of_decide_eq_true hrecord, hfirst, hsecond, hroot, hsession⟩

end NativeTypes.Resolver
