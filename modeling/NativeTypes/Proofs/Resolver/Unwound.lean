/-
NativeTypes.Proofs.Resolver.Unwound — defining the aggregates of a plain module
keeps track of how far they got.

What an aggregate of a plain module ends as depends on the order in which
things are asked for only through value cycles: an aggregate on a ring ends
short, before the part that the ring goes through. `Tracked` says which parts
every aggregate has and what it stands before, with `asked` for the keys that
the request is about and with a list of aggregates that may be short although
they are not being defined. Here it is shown that the define phase keeps it.

The aggregates that are being defined stand before each other, outermost first.
So when the innermost one stands before one of them, those from there on are a
ring, and all of them end at once (`Tracked.turned`), although they are closed
one after the other while the stop passes (`Unwound`). While that goes on,
those that have ended and those that have not yet are in the list of `Tracked`;
when the aggregate is reached that the cycle was entered at, the list is empty
again.

Ending an aggregate is one of two moves. With all its parts, and if they fit,
it ends without a mark (`Tracked.closed`); if it is short or does not fit it
ends with one (`Tracked.closed_marked`). The parts are taken in the order of
the shape, and before each is taken the aggregate that it embeds is defined;
`Walks.tracked` is by induction on the parts that are left.

That a run returns is nowhere shown: what is said is what it leaves when it
does, and what it leaves when it passes a cycle on. A request that returns has
therefore resolved its roots (`resolved_resolveAll`).
-/
import NativeTypes.Proofs.Resolver.Progress

namespace NativeTypes.Resolver

variable {σ : Type} {describe : Description} {valid : σ → Prop} {size : Int}
  {asked : Key → Prop} {s s' t : State σ} {L L' own : List Handle} {h owner x : Handle}
  {shape : Shape} {a : Aggregate} {reason : String} {ds : List Diagnostic}

/-! ## 1. Ends

Marking and closing an aggregate, as moves on states. -/

/-- A mark changes nothing that is known of keys and parts. -/
theorem Plain.marked (hs : Plain describe valid size s) :
    Plain describe valid size (marked s h reason ds) :=
  hs.reshape rfl rfl rfl (fun _ => rfl) rfl rfl fun _ => .inl rfl

/-- Nor does the stage of an aggregate. -/
theorem Plain.closed (hs : Plain describe valid size s) (ha : s.graph.get h = .aggregate a)
    (hgrowing : a.stage = .growing) : Plain describe valid size (closed s h) := by
  refine hs.reshape rfl rfl rfl (fun _ => rfl) rfl rfl fun x => ?_
  rw [get_closed ha hgrowing]
  split
  · rename_i hx
    exact .inr ⟨a, _, hx ▸ ha, rfl, rfl⟩
  · exact .inl rfl

variable (ds) in
/-- Only the one instance is marked. -/
theorem isInvalid_marked_of_ne (hne : x ≠ h) :
    (marked s h reason ds).registry.isInvalid x = s.registry.isInvalid x := by
  rw [Bool.eq_iff_iff, Registry.isInvalid_iff, Registry.isInvalid_iff]
  show (∃ r, (s.registry.markInvalid h reason).invalid.get? x = some r) ↔ _
  rw [Registry.get?_markInvalid, if_neg (Ne.symm hne)]

section

variable (hp : PlainDescription describe) (hw : WellFormed s)
  (ha : s.graph.get h = .aggregate a) (hgrowing : a.stage = .growing)

include hp hw ha hgrowing

/-- An aggregate with all parts, which fit, ends. -/
theorem Tracked.closed (ht : Tracked describe valid size asked [] s) (hw' : WellFormed (closed s h))
    (hfull : ¬Short s h) (hfits : ¬Faulty s h) :
    Tracked describe valid size asked [] (closed s h) := by
  refine ht.close hp hw hw' ha hgrowing (evolves_closed ha hgrowing) rfl
    (ht.plain.closed ha hgrowing) nofun nofun (fun hshort => absurd hshort hfull) ?_ fun _ _ => rfl
  show s.registry.isInvalid h = true ↔ _
  rw [ht.marks]
  exact and_iff_right_of_imp fun hbad => (hbad.elim hfull hfits).elim

/-- An aggregate that is short or does not fit ends with a mark. -/
theorem Tracked.closed_marked (ht : Tracked describe valid size asked L s)
    (hw' : WellFormed (Resolver.closed (marked s h reason ds) h))
    (hL : ∀ y ∈ L, y ∈ L' ∨ y = h) (hL' : ∀ y ∈ L', y ∈ L) (hshort : Short s h → h ∈ L)
    (hbad : Short s h ∨ Faulty s h) :
    Tracked describe valid size asked L' (Resolver.closed (marked s h reason ds) h) := by
  refine ht.close hp hw hw' ha hgrowing ?_ rfl (ht.plain.marked.closed ha hgrowing) hL hL' hshort ?_
    fun y hy => isInvalid_marked_of_ne ds hy
  · exact (evolves_marked [h] ds).trans (evolves_closed (s := marked s h reason ds) ha hgrowing)
  · exact iff_of_true (isInvalid_marked ds) hbad

end

/-! ## 2. Parts

Between two parts the run defines what the next one embeds. What counts of the state before is
who is being defined, because these stand before each other. -/

/-- A cycle is passed on: its members are the aggregates being defined from `head` on, and they
have ended. -/
def Unwound (describe : Description) (valid : σ → Prop) (size : Int) (asked : Key → Prop)
    (s : State σ) (path : List Key) (s' : State σ) : Prop :=
  ∃ before head after key, s.defining = before ++ head :: after ∧ path.head? = some key ∧
    s'.registry.keyOf? head = some key ∧ Tracked describe valid size asked (head :: after) s'

/-- A run keeps track when it returns and when it passes a cycle on. -/
def Tracks (describe : Description) (valid : σ → Prop) (size : Int) (asked : Key → Prop)
    (s : State σ) (r : EStateM.Result Stop (State σ) Unit) : Prop :=
  Yields r (Tracked describe valid size asked []) fun e s' =>
    ∀ path, e = .valueCycle path → Unwound describe valid size asked s path s'

/-- How aggregates are defined that the innermost one being defined stands before. -/
def DefinesTracked (describe : Description) (valid : σ → Prop) (size : Int)
    (asked : Key → Prop) (define : Handle → Run σ Unit) : Prop :=
  ∀ s h, Holding (fun _ => False) s → Tracked describe valid size asked [] s →
    s.defining.IsChain (Stands s) → IsGrowing s.graph h →
    (∀ y ∈ s.defining.getLast?, Stands s y h) →
    Tracks describe valid size asked s (define h s)

/-- Only what is being defined counts of the first state. -/
theorem Tracks.of_defining {r : EStateM.Result Stop (State σ) Unit}
    (h : Tracks describe valid size asked t r) (hdefining : t.defining = s.defining) :
    Tracks describe valid size asked s r := by
  refine Yields.mono h (fun _ ht => ht) fun e s' hstop path he => ?_
  obtain ⟨before, head, after, key, hsplit, hrest⟩ := hstop path he
  exact ⟨before, head, after, key, hdefining ▸ hsplit, hrest⟩

/-- Who is being defined stands before the next one until it is the innermost again. -/
theorem isChain_evolve (hs : Holding (fun _ => False) s) (he : Evolves [owner] s s')
    (hlast : s.defining.getLast? = some owner) (hdefining : s'.defining = s.defining)
    (hchain : s.defining.IsChain (Stands s)) : s'.defining.IsChain (Stands s') := by
  have hsplit : s.defining = s.defining.dropLast ++ [owner] :=
    (List.dropLast_append_getLast? owner hlast).symm
  have hnodup := (List.nodup_append.mp hs.nodup).2.1
  have hkept : ∀ x ∈ s.defining.dropLast, ∀ y, Stands s x y → Stands s' x y := by
    intro x hx y hxy
    have hmem : x ∈ s.defining := (List.dropLast_sublist _).subset hx
    refine hxy.evolve hs.toLinked he (.of_get (he.kept x ?_ ?_ ?_))
    · exact hs.lt_count (List.mem_append_right _ hmem)
    · exact fun hwaits => (List.nodup_append.mp hs.nodup).2.2 x hwaits x hmem rfl
    · rw [hsplit] at hnodup
      exact fun howner => (List.nodup_append.mp hnodup).2.2 x hx x howner rfl
  rw [hdefining]
  rw [hsplit] at hchain ⊢
  obtain ⟨hinit, -, hjoin⟩ := List.isChain_append.mp hchain
  refine List.isChain_append.mpr ⟨?_, List.isChain_singleton owner, fun x hx y hy => ?_⟩
  · exact hinit.imp_of_mem_imp fun x y hx _ hxy => hkept x hx y hxy
  · exact hkept x (List.mem_of_getLast? hx) y (hjoin x hx y hy)

section

variable {declare : Ref → Run σ Handle} {define : Handle → Run σ Unit}
  (hp : PlainDescription describe) (hplain : DeclaresPlain describe valid size declare)

include hp hplain

/-- The type of the part that an aggregate stands before was declared. -/
theorem Declared.tracked {p : PartShape}
    (hd : Declared (fun _ => False) declare owner shape a p.ref x s t)
    (ht : Tracked describe valid size asked [] s) (hpart : shape.parts[a.taken]? = some p)
    (htaking : Taking s owner shape a) : Tracked describe valid size asked [] t := by
  have hshows : ∃ base, Shows describe (.name base) shape := by
    obtain ⟨key, hkey⟩ := hd.before.toLinked.exists_key (Graph.lt_count_of_aggregate htaking.get)
    have hc := ht.plain.content owner key hkey
    rw [htaking.get, htaking.placed] at hc
    cases hc with
    | aggregate hshows => exact ⟨_, hshows⟩
  obtain ⟨name, hshows⟩ := hshows
  have href : p.ref ∈ shape.partRefs := by
    rw [← Shape.map_ref_parts]
    exact List.mem_map.mpr ⟨p, List.mem_of_getElem? hpart, rfl⟩
  obtain ⟨text, base, suffixes, heq, hu, hbase⟩ := hp.parts _ _ hshows _ href
  have hrun := hd.run
  rw [heq] at hrun
  exact ht.declared hp hd.before.toWellFormed hd.holding.toWellFormed hd.grows
    (hplain hd.before.toWellFormed ht.plain hu hbase hrun)
    (.inr ⟨owner, shape, a, a.taken, p, text, htaking.placed, htaking.get, Nat.le_refl _, hpart,
      heq, base, suffixes, hu, hbase, rfl⟩)

omit hp hplain in
/-- What is defined then is what the innermost aggregate stands before. -/
theorem Declared.defines {p : PartShape}
    (hd : Declared (fun _ => False) declare owner shape a p.ref x s t)
    (hdefine : DefinesTracked describe valid size asked define)
    (ht : Tracked describe valid size asked [] t) (hpart : shape.parts[a.taken]? = some p)
    (hlast : s.defining.getLast? = some owner) (hchain : s.defining.IsChain (Stands s))
    (hgrowing : IsGrowing t.graph (innermost t.graph x)) :
    Tracks describe valid size asked s (define (innermost t.graph x) t) := by
  have hchain' : t.defining.IsChain (Stands t) :=
    isChain_evolve hd.before hd.grows.evolves hlast hd.grows.defining hchain
  refine (hdefine t _ hd.holding ht hchain' hgrowing ?_).of_defining hd.grows.defining
  intro y hy
  obtain ⟨b, hb, -⟩ := hgrowing
  cases hd.taking.last.symm.trans hy
  exact ⟨shape, a, p, x, b, hd.taking.placed, hd.taking.get, hpart, hd.declared, rfl, hb⟩

omit hp hplain in
/-- The next part, and those behind it. -/
theorem getElem?_of_drop_eq_cons {ps qs : List PartShape} {p : PartShape} {n : Nat}
    (h : ps.drop n = p :: qs) : ps[n]? = some p ∧ ps.drop (n + 1) = qs := by
  constructor
  · have hfirst : (ps.drop n)[0]? = some p := by rw [h]; rfl
    rwa [List.getElem?_drop, Nat.add_zero] at hfirst
  · rw [← List.tail_drop, h]
    rfl

/-- **An aggregate takes its parts**: it has all of them in the end, or a cycle is passed on. -/
theorem Walks.tracked (hdefine : DefinesTracked describe valid size asked define)
    {ps : List PartShape} {r : EStateM.Result Stop (State σ) Unit}
    (h : Walks (fun _ => False) declare define owner shape ps a s r)
    (hps : shape.parts.drop a.taken = ps) (ht : Tracked describe valid size asked [] s)
    (hchain : s.defining.IsChain (Stands s)) (htaking : Taking s owner shape a) :
    Tracks describe valid size asked s r ∧
      Yields r (fun s' => ¬Short s' owner) fun _ _ => True := by
  induction h with
  | @done a s _ _ =>
    refine ⟨ht, ?_⟩
    rintro ⟨other, b, hplaced, hb, hlt⟩
    cases htaking.placed.symm.trans hplaced
    cases htaking.get.symm.trans hb
    exact absurd (List.drop_eq_nil_iff.mp hps) (Nat.not_le.mpr hlt)
  | undeclared _ _ _ _ he =>
    refine ⟨?_, trivial⟩
    rintro path rfl
    cases he
  | undefined hd hgrowing hrun _ =>
    obtain ⟨hpart, -⟩ := getElem?_of_drop_eq_cons hps
    have ht₁ := hd.tracked hp hplain ht hpart htaking
    have hdefined := hd.defines hdefine ht₁ hpart htaking.last hchain hgrowing
    rw [hrun] at hdefined
    exact ⟨hdefined, trivial⟩
  | @took p ps a x s s₁ s₂ r hd hembeds hk₂ htaking₂ hready hk₃ _ ih =>
    obtain ⟨hpart, hrest⟩ := getElem?_of_drop_eq_cons hps
    have ht₁ := hd.tracked hp hplain ht hpart htaking
    have ht₂ : Tracked describe valid size asked [] s₂ := by
      cases hembeds with
      | alone => exact ht₁
      | defined hgrowing hrun =>
        have hdefined := hd.defines hdefine ht₁ hpart htaking.last hchain hgrowing
        rw [hrun] at hdefined
        exact hdefined
    have he₂ : Evolves [owner] s s₂ := (hd.grows.evolves).trans hk₂.evolves.weaken
    have hdefining₂ : s₂.defining = s.defining := hk₂.defining.trans hd.grows.defining
    have ht₃ := ht₂.assigned hp hk₂.holding htaking₂ hpart
      (hk₂.evolves.declared _ _ hd.declared) hready hk₃.holding.toWellFormed
    have hchain₃ := isChain_evolve hd.before (he₂.trans hk₃.evolves) htaking.last hdefining₂ hchain
    obtain ⟨htracks, hfull⟩ := ih (by rw [PartShape.taken_add, hrest]) ht₃ hchain₃
      ⟨htaking₂.last, htaking₂.placed, by rw [get_assigned _ htaking₂.get, if_pos rfl]⟩
    exact ⟨htracks.of_defining hdefining₂, hfull⟩

/-! ## 3. Definitions

An aggregate is taken up, takes parts, and ends; or a cycle comes through it. -/

variable (task : Task σ)

omit hplain in
/-- An aggregate that took all its parts ends. -/
theorem Tracked.finish_taken (hs : WellFormed t) (ht : Tracked describe valid size asked [] t)
    (ha : t.graph.get h = .aggregate a) (hgrowing : a.stage = .growing) (hfull : ¬Short t h) :
    Tracks describe valid size asked s (finish task h (.ok () t)) := by
  obtain ⟨key, hkey⟩ := hs.exists_key (Graph.lt_count_of_aggregate ha)
  simp only [finish, checkLayout_eq, ha, hkey]
  cases hfault : t.graph.layoutFault? a with
  | none =>
    refine ht.closed hp hs ha hgrowing (hs.closed ha hgrowing) hfull ?_
    rintro ⟨b, hb, hbad⟩
    cases ha.symm.trans hb
    rw [hfault] at hbad
    cases hbad
  | some fault =>
    have hbad : Faulty t h := ⟨a, ha, by rw [hfault]; rfl⟩
    simp only
    cases fault.isWritable with
    | true =>
      exact ht.closed_marked hp hs ha hgrowing (hs.marked.closed (s := marked t h _ _) ha hgrowing)
        (fun _ hy => absurd hy List.not_mem_nil) (fun _ hy => absurd hy List.not_mem_nil)
        (fun hshort => absurd hshort hfull) (.inr hbad)
    | false =>
      rintro path ⟨⟩

omit hplain in
/-- An aggregate that a cycle comes through ends; the cycle goes on unless it was entered here. -/
theorem Tracked.finish_cycle (hs : WellFormed t) {path : List Key}
    (hu : Unwound describe valid size asked (Resolver.entered s h) path t) (hnot : h ∉ s.defining)
    (ha : t.graph.get h = .aggregate a) (hgrowing : a.stage = .growing) :
    Tracks describe valid size asked s (finish task h (.error (.valueCycle path) t)) := by
  obtain ⟨key, hkey⟩ := hs.exists_key (Graph.lt_count_of_aggregate ha)
  obtain ⟨reason, ds, hmeet⟩ := exists_meetCycle_run task hkey path
  obtain ⟨before, head, after, k, hsplit, hhead, hk, ht⟩ := hu
  replace hsplit : s.defining ++ [h] = before ++ head :: after := hsplit
  have hw {ds : List Diagnostic} : WellFormed (Resolver.closed (marked t h reason ds) h) :=
    hs.marked.closed (s := marked t h reason ds) ha hgrowing
  simp only [finish, hmeet]
  rcases List.eq_nil_or_concat after with rfl | ⟨after', last, rfl⟩
  · -- the cycle was entered at `h`
    obtain ⟨-, hsame⟩ := List.append_inj' hsplit rfl
    cases hsame
    cases hkey.symm.trans hk
    rw [if_pos hhead]
    exact ht.closed_marked hp hs ha hgrowing hw (fun y hy => .inr (List.mem_singleton.mp hy))
      (fun _ hy => absurd hy List.not_mem_nil) (fun _ => List.mem_cons_self)
      (.inl (ht.short h List.mem_cons_self))
  · -- the cycle was entered further out
    rw [List.concat_eq_append, ← List.cons_append, ← List.append_assoc] at hsplit
    obtain ⟨hdefining, hsame⟩ := List.append_inj' hsplit rfl
    cases hsame
    have hne : ¬path.head? = some key := by
      rw [hhead]
      rintro ⟨⟩
      obtain rfl := hs.coherent.keyOf?_inj hk hkey
      exact hnot (hdefining ▸ List.mem_append_right _ List.mem_cons_self)
    have hmem : h ∈ head :: after'.concat h := by simp
    rw [if_neg hne]
    rintro _ ⟨⟩
    refine ⟨before, head, after', k, hdefining, hhead, hk, ?_⟩
    refine ht.closed_marked hp hs ha hgrowing hw (fun y hy => ?_) (fun y hy => ?_) (fun _ => hmem)
      (.inl (ht.short h hmem))
    · rw [List.concat_eq_append, ← List.cons_append, List.mem_append, List.mem_singleton] at hy
      exact hy
    · rw [List.concat_eq_append, ← List.cons_append]
      exact List.mem_append_left _ hy

/-- **Defining an aggregate keeps track**, whether its definition ends or passes a cycle on. -/
theorem tracked_defineOnce (hdeclare : Declares declare)
    (hdefineAll : DefinesAll (fun _ => False) define)
    (hdefine : DefinesTracked describe valid size asked define) :
    DefinesTracked describe valid size asked (defineOnce task declare define) := by
  intro s h hs ht hchain hgrowing hlast
  have hring : (s.defining ++ [h]).IsChain (Stands s) := by
    refine List.isChain_append.mpr ⟨hchain, List.isChain_singleton h, fun x hx y hy => ?_⟩
    cases hy
    exact hlast x hx
  by_cases hh : h ∈ s.defining
  · obtain ⟨path, hpath, hrun⟩ := exists_defineOnce_cycle task declare define hs.toLinked hh
      fun x hx => hs.lt_count (List.mem_append_right _ hx)
    obtain ⟨before, after, hsplit⟩ := List.append_of_mem hh
    rw [dropWhile_of_nodup (List.nodup_append.mp hs.nodup).2.1 hsplit] at hpath
    rw [hrun]
    rintro _ ⟨⟩
    cases hpath with
    | cons hk _ =>
      refine ⟨before, h, after, _, hsplit, rfl, hk, ht.turned ?_ fun x hx => ?_⟩
      · rw [hsplit, List.append_assoc] at hring
        exact hring.right_of_append
      · have hmem : x ∈ s.defining := hsplit ▸ List.mem_append_right _ hx
        exact fun hc => hc.not_growing (hs.growing x (List.mem_append_right _ hmem))
  · have hmem : h ∈ s.placeholders := by
      refine (List.mem_append.mp ?_).resolve_right hh
      exact (hs.accounted h hgrowing).resolve_right id
    obtain ⟨a, ha, -⟩ := hgrowing
    obtain ⟨shape, hshape⟩ := (hs.placed h).mpr ⟨a, ha⟩
    obtain ⟨hbases, hfields⟩ := hs.empty h hmem a ha
    have hnone : a.taken = 0 := by rw [Aggregate.taken, hbases, hfields]; rfl
    have hentered := hs.entered hmem
    have htaking : Taking (entered s h) h shape a := ⟨by simp [entered], hshape, ha⟩
    obtain ⟨r, htakes, hrun⟩ := exists_takes task declare define hh hmem hshape
    have hwalks := htakes.walks hdeclare hdefineAll hentered htaking
    have hkeeps := hwalks.keeps
    obtain ⟨htracks, hfull⟩ := hwalks.tracked hp hplain hdefine (by rw [hnone]; rfl)
      (ht.entered hp hs.toWellFormed hentered.toWellFormed) hring htaking
    rw [hrun]
    cases r with
    | ok _ t =>
      obtain ⟨hk, a', ht', -⟩ := hkeeps
      exact htracks.finish_taken hp task hk.holding.toWellFormed ht'.get
        (hk.holding.isGrowing ht') hfull
    | error e t =>
      cases he : e.isCycle with
      | false =>
        rw [finish_stopped task h he]
        rintro path rfl
        cases he
      | true =>
        obtain ⟨path, rfl⟩ := exists_path_of_isCycle he
        have hk : Keeps [h] (lostBy (fun _ => False) (.valueCycle path)) (entered s h) t := hkeeps
        rw [lostBy_valueCycle] at hk
        have hlast' : h ∈ t.defining := by
          rw [hk.defining]
          exact List.mem_append_right _ List.mem_cons_self
        obtain ⟨b, hb, hopen⟩ := hk.holding.growing h (List.mem_append_right _ hlast')
        exact Tracked.finish_cycle hp task hk.holding.toWellFormed (htracks path rfl) hh hb hopen

end

/-! ## 4. Requests

The roots are declared one after the other, and then the worklist is drained. The worklist itself
is of no account: what is on it grows or has ended, and that is said by the graph. -/

section

variable {task : Task σ} (hp : PlainDescription describe) (hd : Describes task describe valid)
  (hz : Sizes task valid size)

include hp hd hz

/-- By induction on how many aggregates may be inside each other. -/
theorem definesTracked_define (depth n : Nat) :
    DefinesTracked describe valid size asked (define task depth n) := by
  induction n with
  | zero =>
    rintro s h _ _ _ _ _ _ ⟨⟩
  | succ n ih =>
    exact tracked_defineOnce hp (declaresPlain_declare hd hp hz depth) task
      (declares_declare task depth) (definesAll_define task depth n) ih

omit hp hd hz in
/-- What the worklist loses is of no account. -/
theorem Tracked.popped (ht : Tracked describe valid size asked [] s) (rest : List Handle) :
    Tracked describe valid size asked [] { s with worklist := rest } := by
  refine ⟨ht.plain.reshape rfl rfl rfl (fun _ => rfl) rfl rfl fun _ => .inl rfl,
    fun x a shape ha hplaced => ?_, ?_, ht.short, ht.marks, ht.met⟩
  · obtain ⟨hle, htook⟩ := ht.partly x a shape ha hplaced
    exact ⟨hle, htook.of_declared fun _ _ hx => hx⟩
  · obtain ⟨rank, now, hr⟩ := ht.ranked
    exact ⟨rank, now, ⟨hr.ring, hr.next⟩, hr.le, hr.top, hr.part⟩

omit hp hd hz in
/-- What is not finalized grows. -/
theorem isGrowing_of_not_finalized (hopen : (s.graph.get h).isFinalized = false) :
    IsGrowing s.graph h := by
  cases hget : s.graph.get h with
  | aggregate a =>
    rw [hget] at hopen
    exact ⟨a, hget, by simpa [Instance.isFinalized, Aggregate.isFinalized] using hopen⟩
  | _ =>
    rw [hget] at hopen
    cases hopen

/-- Draining keeps track. -/
theorem tracked_drain (depth n : Nat) (hs : Resting (fun _ => False) s)
    (ht : Tracked describe valid size asked [] s) {u : Unit}
    (hrun : drain task depth n s = .ok u s') : Tracked describe valid size asked [] s' := by
  induction n generalizing s with
  | zero =>
    cases hlist : s.worklist with
    | nil =>
      rw [drain_nil _ 0 hlist] at hrun
      cases hrun
      exact ht
    | cons h rest =>
      simp only [drain, run_get_bind, hlist, List.isEmpty_cons, Bool.not_false, if_true] at hrun
      cases hrun
  | succ n ih =>
    cases hlist : s.worklist with
    | nil =>
      rw [drain_nil _ (n + 1) hlist] at hrun
      cases hrun
      exact ht
    | cons h rest =>
      have ht' := ht.popped rest
      rw [drain_cons _ n hlist] at hrun
      cases hfinal : (s.graph.get h).isFinalized with
      | true =>
        rw [if_pos hfinal] at hrun
        exact ih (hs.skip hlist hfinal) ht' hrun
      | false =>
        rw [if_neg (by simp [hfinal])] at hrun
        obtain ⟨_, t, hdefine, hrest⟩ := bind_eq_ok hrun
        cases depth with
        | zero => cases hdefine
        | succ depth =>
          have htracks := definesTracked_define hp hd hz (depth + 1) (depth + 1) _ h
            (hs.toHolding.popped rest) ht' (by rw [hs.defining_eq]; exact List.isChain_nil)
            (isGrowing_of_not_finalized hfinal) (by rw [hs.defining_eq]; intro _ hlast; cases hlast)
          rw [hdefine] at htracks
          exact ih ((rests_define (depth + 1) depth hs hlist).of_ok hdefine) htracks hrest

/-- Declaring what is asked for keeps track. -/
theorem tracked_declare (depth : Nat) {text : String} {key : Key}
    (hspells : SpellsKey describe text key) (hasked : asked key)
    (hs : Resting (fun _ => False) s) (ht : Tracked describe valid size asked [] s)
    (hrun : declare task depth (.name text) s = .ok h s') :
    Resting (fun _ => False) s' ∧ Grows s s' ∧ Tracked describe valid size asked [] s' ∧
      s'.declared.get? (.name text) = some h := by
  obtain ⟨base, suffixes, hu, hbase, rfl⟩ := hspells
  obtain ⟨hw, hg, -, hdeclared⟩ :=
    (declares_declare task depth s (.name text) hs.toWellFormed).of_ok hrun
  have hgives := declaresPlain_declare hd hp hz depth hs.toWellFormed ht.plain hu hbase hrun
  exact ⟨hs.grow hw hg, hg, ht.declared hp hs.toWellFormed hw hg hgives (.inl hasked), hdeclared⟩

/-- Declaring all that is asked for keeps track. -/
theorem tracked_declareAll (depth : Nat) (roots : List String)
    (hroots : ∀ text ∈ roots, ∃ key, SpellsKey describe text key ∧ asked key)
    (hs : Resting (fun _ => False) s) (ht : Tracked describe valid size asked [] s)
    {handles : List Handle}
    (hrun : declareAll (declare task depth) (roots.map .name) s = .ok handles s') :
    Resting (fun _ => False) s' ∧ Grows s s' ∧ Tracked describe valid size asked [] s' ∧
      ∀ text ∈ roots, ∃ h, s'.declared.get? (.name text) = some h := by
  induction roots generalizing s handles with
  | nil =>
    cases hrun
    exact ⟨hs, .refl _, ht, nofun⟩
  | cons text rest ih =>
    obtain ⟨h, t, hfirst, hrun⟩ := bind_eq_ok hrun
    obtain ⟨_, _, hrest, hlast⟩ := bind_eq_ok hrun
    cases hlast
    obtain ⟨key, hspells, hasked⟩ := hroots text List.mem_cons_self
    obtain ⟨hs₁, hg, ht₁, hdeclared⟩ := tracked_declare hp hd hz depth hspells hasked hs ht hfirst
    obtain ⟨hs₂, hg₂, ht₂, hrest⟩ := ih (fun x hx => hroots x (List.mem_cons_of_mem _ hx))
      hs₁ ht₁ hrest
    refine ⟨hs₂, hg.trans hg₂, ht₂, fun x hx => ?_⟩
    rcases List.mem_cons.mp hx with rfl | hx
    · exact ⟨h, hg₂.declared _ _ hdeclared⟩
    · exact hrest x hx

end

/-- A key is asked for by a root that spells it. -/
def AskedBy (describe : Description) (roots : List String) (key : Key) : Prop :=
  ∃ text ∈ roots, SpellsKey describe text key

/-- What a request for these roots leaves: all are declared, and every aggregate has ended. -/
structure Resolved (describe : Description) (valid : σ → Prop) (size : Int) (roots : List String)
    (s : State σ) : Prop extends WellFormed s where
  tracked : Tracked describe valid size (AskedBy describe roots) [] s
  complete : ∀ x a, s.graph.get x = .aggregate a → IsComplete s.graph x
  roots : ∀ text ∈ roots, ∃ h, s.declared.get? (.name text) = some h

/-- A resolver that knows nothing yet has no aggregates. -/
theorem Tracked.start {session : σ} (hvalid : valid session) :
    Tracked describe valid size asked [] (State.start session) := by
  have hnone (x : Handle) (a : Aggregate) : (State.start session).graph.get x ≠ .aggregate a := by
    rw [Graph.get_of_count_le (Nat.zero_le x)]
    nofun
  have hopen (x : Handle) : ¬IsComplete (State.start session).graph x :=
    fun ⟨a, ha, _⟩ => hnone x a ha
  refine ⟨.start hvalid, fun x a _ ha => absurd ha (hnone x a), ⟨fun _ => 0, 0, ⟨?_, ?_⟩,
    fun _ => Nat.le_refl 0, fun _ _ => rfl, ?_⟩, fun _ hx => absurd hx List.not_mem_nil, ?_,
    fun x key hkey => ?_⟩
  · exact fun x hx => absurd (ended_nil.mp hx) (hopen x)
  · exact fun x y hx => absurd (ended_nil.mp hx) (hopen x)
  · exact fun x y b _ hb => absurd hb (hnone y b)
  · refine fun x => iff_of_false ?_ fun hx => hopen x hx.1
    rw [Registry.isInvalid_iff]
    rintro ⟨_, hreason⟩
    cases hreason
  · cases hkey

/-- **A request that returns has resolved its roots.** -/
theorem resolved_resolveAll {task : Task σ} (hp : PlainDescription describe)
    (hd : Describes task describe valid) (hz : Sizes task valid size) {session : σ}
    (hvalid : valid session) {roots : List String}
    (hroots : ∀ text ∈ roots, ∃ key, SpellsKey describe text key) {limits : Limits}
    {handles : List Handle}
    (hrun : resolveAll task limits (roots.map .name) (State.start session) = .ok handles s) :
    Resolved describe valid size roots s := by
  have hsettled := ((Reached.start session).resolveAll hrun).settled
  obtain ⟨_, t, hdeclare, hrest⟩ := bind_eq_ok hrun
  obtain ⟨_, _, hdrain, hlast⟩ := bind_eq_ok hrest
  cases hlast
  have hasked : ∀ text ∈ roots, ∃ key, SpellsKey describe text key ∧
      AskedBy describe roots key := by
    intro text hmem
    obtain ⟨key, hspells⟩ := hroots text hmem
    exact ⟨key, hspells, text, hmem, hspells⟩
  obtain ⟨hs, hg, ht, hdeclared⟩ := tracked_declareAll hp hd hz limits.depth roots hasked
    (resting_start session) (.start hvalid) hdeclare
  have hdraining := (settled_start task.module session).grow hs.toWellFormed hg
  exact {
    hsettled.toWellFormed with
    tracked := tracked_drain hp hd hz limits.depth limits.total hs ht hdrain
    complete := fun x a ha => ⟨a, ha, hsettled.isComplete ha⟩
    roots := fun text hmem => by
      obtain ⟨h, hh⟩ := hdeclared text hmem
      exact ⟨h, declared_of_drain hdraining hdrain hh⟩ }

end NativeTypes.Resolver
