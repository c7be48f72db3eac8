/-
NativeTypes.Proofs.Resolver.Returns — requests return.

Where the chains of references end, a request comes to an end, and what may end
it before it returns is known: `resolve_returns`. The number of references that
parts are given by is finite, each of them is declared once, and declaring one
puts a bounded number of aggregates on the worklist. So what waits and what may
still come to wait is bounded together (`Roomy`); to take an aggregate up uses
up one of these, which bounds how many are inside each other and how many the
worklist ever holds.

There are three counts to bound: how deeply declarations call each other, how
many aggregates are being defined inside each other, and how long the worklist
is drained. The first is bounded by the chains of references (`Ends`), for each
reference on its own. The other two cannot be bounded by what is there at the
start, since defining an aggregate declares its parts, which may add
aggregates. They share one measure: what waits, and for every reference of a
part that is not declared yet as many as its declaration may add. Declaring a
part moves from the second summand to the first, and taking an aggregate up
takes from the first.

That the only stops are excused ones rests on the other modules: an aggregate
that is to be defined waits or is being defined (`Holding`), what is in the
graph has a key, a cycle is caught by the aggregate it was entered at
(`draining_define`), and keys are looked up before they are taken (`Plays`) —
but for the key of an enumeration: `exists_taken`.
-/
import NativeTypes.Proofs.Resolver.Chains
import NativeTypes.Proofs.Resolver.Unfinished

namespace NativeTypes

namespace Resolver

variable {σ : Type} {task : Task σ} {describe : Description} {valid : σ → Prop}
  {parts : List Ref} {width n w : Nat} {s s' t : State σ} {e : Stop}

/-! ## 1. Room -/

/-- How many of the references are not declared. -/
def undeclared (parts : List Ref) (s : State σ) : Nat :=
  parts.countP fun r => (s.declared.get? r).isNone

/-- What is declared stays so. -/
theorem undeclared_le
    (hdeclared : ∀ r h, s.declared.get? r = some h → s'.declared.get? r = some h) :
    undeclared parts s' ≤ undeclared parts s := by
  refine List.countP_mono_left fun r _ hr => ?_
  cases hget : s.declared.get? r with
  | none => rfl
  | some h =>
    rw [hdeclared r h hget] at hr
    cases hr

/-- One reference less, if a part of it was new. -/
theorem undeclared_lt (hdeclared : ∀ r h, s.declared.get? r = some h → s'.declared.get? r = some h)
    {ref : Ref} (hmem : ref ∈ parts) (hnew : s.declared.get? ref = none) {h : Handle}
    (hget : s'.declared.get? ref = some h) : undeclared parts s' < undeclared parts s := by
  obtain ⟨before, after, rfl⟩ := List.append_of_mem hmem
  have hbefore : undeclared before s' ≤ undeclared before s := undeclared_le hdeclared
  have hafter : undeclared after s' ≤ undeclared after s := undeclared_le hdeclared
  simp only [undeclared, List.countP_append, List.countP_cons, hnew, hget, Option.isNone_none,
    Option.isNone_some, if_true] at hbefore hafter ⊢
  simp only [Bool.false_eq_true, if_false]
  omega

/-- The references that parts are given by are known, and each of them is declared. -/
structure Bounded (task : Task σ) (describe : Description) (valid : σ → Prop) (parts : List Ref)
    (width : Nat) : Prop where
  describes : Describes task describe valid
  partRefs : ∀ ref shape, describe ref = some shape → shape.kind = .struct ∨ shape.kind = .union →
    ∀ r ∈ shape.partRefs, r ∈ parts
  within : ∀ r ∈ parts, DeclaresWithin task describe valid width [] r

/-- What waits, with what declaring parts may add to it, is at most `n`, and the same for what is
on the worklist and `w`. -/
structure Roomy (describe : Description) (valid : σ → Prop) (parts : List Ref)
    (width n w : Nat) (s : State σ) : Prop where
  truthful : Truthful describe valid s
  placed : ∀ h shape, s.placed.get? h = some shape → ∃ ref, describe ref = some shape ∧
    (shape.kind = .struct ∨ shape.kind = .union)
  openAliases_eq : s.openAliases = []
  holders : undeclared parts s * width + s.placeholders.length ≤ n
  listed : undeclared parts s * width + s.worklist.length ≤ w

theorem Roomy.mono {n' : Nat} (hs : Roomy describe valid parts width n w s) (hn : n ≤ n') :
    Roomy describe valid parts width n' w s :=
  { hs with holders := hs.holders.trans hn }

/-- Room is not about the graph, the registry and what is being defined. -/
theorem Roomy.of_eq (hs : Roomy describe valid parts width n w s)
    (h : (s'.session, s'.shapes, s'.declared, s'.openAliases, s'.placed, s'.placeholders,
      s'.worklist) = (s.session, s.shapes, s.declared, s.openAliases, s.placed, s.placeholders,
      s.worklist)) : Roomy describe valid parts width n w s' := by
  simp only [Prod.mk.injEq] at h
  obtain ⟨hsession, hshapes, hdeclared, hopen, hplaced, hholders, hlist⟩ := h
  refine ⟨⟨hsession ▸ hs.truthful.1, hshapes ▸ hs.truthful.2⟩, hplaced ▸ hs.placed,
    hopen.trans hs.openAliases_eq, ?_, ?_⟩
  · rw [undeclared, hdeclared, hholders]
    exact hs.holders
  · rw [undeclared, hdeclared, hlist]
    exact hs.listed

/-- Declaring a part uses the room that is kept for it. -/
theorem roomy_declare (hb : Bounded task describe valid parts width) {depth : Nat}
    (hdepth : width ≤ depth) {ref : Ref} (href : ref ∈ parts) (hw : WellFormed s)
    (hs : Roomy describe valid parts width n w s) :
    Ensures (declare task depth ref) s (fun _ s' => Roomy describe valid parts width n w s')
      (Pardoned task describe valid parts) := by
  have hwithin := Ensures.mono (hb.within ref href depth hdepth s hw hs.truthful hs.openAliases_eq)
    (fun _ _ h => h) fun _ _ h => h.mono (by simpa using href)
  cases hnew : s.declared.get? ref with
  | some h =>
    cases depth with
    | zero => exact hwithin
    | succ m =>
      unfold Ensures
      simp only [declare, declareOnce, run_get_bind, hnew]
      exact hs
  | none =>
    have hkeeps := (asking_placed hb.describes).keeps hb.describes depth ref s hw
      ⟨hs.truthful, hs.placed⟩
    refine Ensures.mono ((hwithin.and hkeeps).and (declares_declare task depth s ref hw)) ?_
      fun e t h => h.1.1
    rintro h t ⟨⟨hlength, htruth, hplaced⟩, -, hg, -, hget⟩
    have hlt := undeclared_lt hg.declared href hnew hget
    have hmul := Nat.mul_le_mul_right width hlt
    rw [Nat.succ_mul] at hmul
    obtain ⟨new, hholders, hlist, -⟩ := hg.waiting
    have hplaceholders := hs.holders
    have hworklist := hs.listed
    rw [hholders, List.length_append] at hlength
    refine ⟨htruth, hplaced, hg.openAliases.trans hs.openAliases_eq, ?_, ?_⟩
    · rw [hholders, List.length_append]
      omega
    · rw [hlist, List.length_append]
      omega

/-- An aggregate that is taken up waits no more. -/
theorem Roomy.entered {h : Handle} (hs : Roomy describe valid parts width (n + 1) w s)
    (hmem : h ∈ s.placeholders) : Roomy describe valid parts width n w (entered s h) where
  truthful := hs.truthful
  placed := hs.placed
  openAliases_eq := hs.openAliases_eq
  holders := by
    have hlength := List.length_erase_of_mem hmem
    have hpos := List.length_pos_of_mem hmem
    have hroom := hs.holders
    show undeclared parts s * width + (s.placeholders.erase h).length ≤ n
    omega
  listed := hs.listed

/-! ## 2. Defining -/

/-- There is room left afterwards, and the only stops are cycles and excused ones. -/
def KeepsRoom (task : Task σ) (describe : Description) (valid : σ → Prop) (parts : List Ref)
    (width n w : Nat) (r : EStateM.Result Stop (State σ) Unit) : Prop :=
  Yields r (Roomy describe valid parts width n w)
    fun e s => e.isCycle = true ∧ Roomy describe valid parts width n w s ∨
      Pardoned task describe valid parts e s

/-- What takes parts still is defined as long as less than `limit` can wait. -/
def DefinesWithin (task : Task σ) (describe : Description) (valid : σ → Prop) (parts : List Ref)
    (width limit : Nat) (define : Handle → Run σ Unit) : Prop :=
  ∀ n w s h, n < limit → Holding (fun _ => False) s → IsGrowing s.graph h →
    Roomy describe valid parts width n w s →
    KeepsRoom task describe valid parts width n w (define h s)

section

variable {depth limit : Nat} {define : Handle → Run σ Unit} {owner h : Handle} {shape : Shape}
  {a : Aggregate} (hb : Bounded task describe valid parts width) (hdepth : width ≤ depth)
  (hdefine : DefinesWithin task describe valid parts width limit define)
include hb hdepth hdefine

/-- Taking parts keeps room. -/
theorem Walks.keepsRoom {ps : List PartShape} {r : EStateM.Result Stop (State σ) Unit}
    (hwalks : Walks (fun _ => False) (declare task depth) define owner shape ps a s r)
    (hps : ∀ p ∈ ps, p.ref ∈ parts) (hn : n < limit)
    (hs : Roomy describe valid parts width n w s) :
    KeepsRoom task describe valid parts width n w r := by
  have hdeclared {s s₁ : State σ} {a : Aggregate} {p : PartShape} {ps : List PartShape} {x : Handle}
      (hd : Declared (fun _ => False) (declare task depth) owner shape a p.ref x s s₁)
      (hps : ∀ q ∈ p :: ps, q.ref ∈ parts) (hs : Roomy describe valid parts width n w s) :
      Roomy describe valid parts width n w s₁ :=
    (roomy_declare hb hdepth (hps p List.mem_cons_self) hd.before.toWellFormed hs).of_ok hd.run
  induction hwalks with
  | done => exact hs
  | @undeclared p _ _ _ _ _ hheld _ hrun =>
    exact .inr ((roomy_declare hb hdepth (hps p List.mem_cons_self) hheld.toWellFormed
      hs).of_error hrun)
  | undefined hd hgrowing hrun =>
    have hkept := hdefine n w _ _ hn hd.holding hgrowing (hdeclared hd hps hs)
    rw [hrun] at hkept
    exact hkept
  | @took _ _ _ _ _ _ s₂ _ hd hembeds _ _ _ _ _ ih =>
    have hs₁ := hdeclared hd hps hs
    have hs₂ : Roomy describe valid parts width n w s₂ := by
      cases hembeds with
      | alone => exact hs₁
      | defined hgrowing hrun =>
        have hkept := hdefine n w _ _ hn hd.holding hgrowing hs₁
        rw [hrun] at hkept
        exact hkept
    exact ih (fun q hq => hps q (List.mem_cons_of_mem _ hq)) (hs₂.of_eq rfl)

omit hb hdepth hdefine in
/-- The end of a definition keeps room. -/
theorem keepsRoom_finish {r : EStateM.Result Stop (State σ) Unit}
    (hkeys : Yields r (fun t => ∃ key, t.registry.keyOf? h = some key)
      fun _ t => ∃ key, t.registry.keyOf? h = some key)
    (hr : KeepsRoom task describe valid parts width n w r) :
    KeepsRoom task describe valid parts width n w (finish task h r) := by
  cases r with
  | ok _ t =>
    have hroom : Roomy describe valid parts width n w t := hr
    obtain ⟨key, hkey⟩ := hkeys
    have hclosed : Roomy describe valid parts width n w (closed t h) := hroom.of_eq rfl
    simp only [finish, checkLayout_eq, hkey]
    cases hget : t.graph.get h with
    | aggregate a =>
      dsimp only
      cases hfault : t.graph.layoutFault? a with
      | none => exact hclosed
      | some fault =>
        dsimp only
        cases hwritable : fault.isWritable with
        | true => exact hroom.of_eq rfl
        | false => exact .inr (.layout (s := left t) hget hfault hwritable)
    | _ => exact hclosed
  | error e t =>
    rcases hr with ⟨hcycle, hroom⟩ | hpardoned
    · obtain ⟨path, rfl⟩ := exists_path_of_isCycle hcycle
      obtain ⟨key, hkey⟩ := hkeys
      obtain ⟨reason, ds, hmeet⟩ := exists_meetCycle_run task hkey path
      simp only [finish, hmeet]
      by_cases hhead : path.head? = some key
      · rw [if_pos hhead]
        exact hroom.of_eq rfl
      · rw [if_neg hhead]
        exact .inl ⟨rfl, hroom.of_eq rfl⟩
    · rw [finish_stopped task h hpardoned.isCycle]
      exact .inr (hpardoned.of_eq rfl rfl)

/-- **One aggregate more inside each other is one more that can wait.** -/
theorem definesWithin_defineOnce (hall : DefinesAll (fun _ => False) define) :
    DefinesWithin task describe valid parts width (limit + 1)
      (defineOnce task (declare task depth) define) := by
  intro n w s h hn hs hgrowing hroom
  by_cases hh : h ∈ s.defining
  · obtain ⟨path, -, hrun⟩ :=
      exists_defineOnce_cycle task (declare task depth) define hs.toLinked hh
      fun x hx => hs.lt_count (List.mem_append_right _ hx)
    rw [hrun]
    exact .inl ⟨rfl, hroom⟩
  · have hmem : h ∈ s.placeholders :=
      (List.mem_append.mp ((hs.accounted h hgrowing).resolve_right id)).resolve_right hh
    obtain ⟨n, rfl⟩ : ∃ m, n = m + 1 := by
      have hpos := List.length_pos_of_mem hmem
      have hlength := hroom.holders
      exact ⟨n - 1, by omega⟩
    obtain ⟨a, ha, -⟩ := hgrowing
    obtain ⟨shape, hshape⟩ := (hs.placed h).mpr ⟨a, ha⟩
    have htaking : Taking (Resolver.entered s h) h shape a := ⟨by simp [entered], hshape, ha⟩
    obtain ⟨r, htakes, hrun⟩ := exists_takes task (declare task depth) define hh hmem hshape
    have hwalks := htakes.walks (declares_declare task depth) hall (hs.entered hmem) htaking
    have hparts : ∀ p ∈ shape.parts, p.ref ∈ parts := by
      obtain ⟨ref, hdescribed, hkind⟩ := hroom.placed h shape hshape
      intro p hp
      refine hb.partRefs ref shape hdescribed hkind p.ref ?_
      rw [← Shape.map_ref_parts]
      exact List.mem_map_of_mem hp
    have hkept := hwalks.keepsRoom hb hdepth hdefine hparts (Nat.lt_of_succ_lt_succ hn)
      (hroom.entered hmem)
    have hkeys : Yields r (fun t => ∃ key, t.registry.keyOf? h = some key)
        fun _ t => ∃ key, t.registry.keyOf? h = some key := by
      have hgraph {lost : Handle → Prop} {t : State σ}
          (hk : Keeps [h] lost (Resolver.entered s h) t) :
          ∃ key, t.registry.keyOf? h = some key :=
        hk.holding.toLinked.exists_key
          (Nat.lt_of_lt_of_le (Graph.lt_count_of_aggregate ha) hk.evolves.count)
      exact hwalks.keeps.mono (fun t ht => hgraph ht.1) fun e t ht => hgraph ht
    have hfinish := keepsRoom_finish hkeys hkept
    rw [hrun]
    exact hfinish.mono (fun t ht => ht.mono (Nat.le_succ n)) fun e t ht =>
      ht.imp_left fun hcycle => ⟨hcycle.1, hcycle.2.mono (Nat.le_succ n)⟩

end

/-- By induction on how many can wait. -/
theorem definesWithin_define (hb : Bounded task describe valid parts width) {depth : Nat}
    (hdepth : width ≤ depth) (limit : Nat) :
    DefinesWithin task describe valid parts width limit (define task depth limit) := by
  induction limit with
  | zero => exact fun n _ _ _ hn => absurd hn (Nat.not_lt_zero n)
  | succ limit ih =>
    exact definesWithin_defineOnce hb hdepth ih (definesAll_define task depth limit)

/-! ## 3. Requests -/

/-- By induction on what is on the worklist and may come to it. -/
theorem returns_drain (hb : Bounded task describe valid parts width) {depth : Nat}
    (hdepth : width ≤ depth) (hn : n < depth) (total : Nat) (hw : w ≤ total)
    (hs : Draining task.module s) (hroom : Roomy describe valid parts width n w s) :
    Ensures (drain task depth total) s (fun _ _ => True) (Pardoned task describe valid parts) := by
  induction total generalizing s w with
  | zero =>
    have hlist : s.worklist = [] := List.length_eq_zero_iff.mp (by have := hroom.listed; omega)
    unfold Ensures
    rw [drain_nil depth 0 hlist]
    trivial
  | succ total ih =>
    unfold Ensures
    cases hlist : s.worklist with
    | nil =>
      rw [drain_nil depth (total + 1) hlist]
      trivial
    | cons h rest =>
      have hpopped : Roomy describe valid parts width n (w - 1) { s with worklist := rest } :=
        ⟨hroom.truthful, hroom.placed, hroom.openAliases_eq, hroom.holders, by
          have hlisted := hroom.listed
          rw [hlist, List.length_cons] at hlisted
          show undeclared parts s * width + rest.length ≤ w - 1
          omega⟩
      rw [drain_cons depth total hlist]
      cases hfinal : (s.graph.get h).isFinalized with
      | true =>
        rw [if_pos rfl]
        exact ih (by omega) (hs.skip hlist hfinal) hpopped
      | false =>
        rw [if_neg (by simp)]
        have hheld := (hs.toSound.popped rest).holding
        have hgrowing : IsGrowing s.graph h := by
          cases hget : s.graph.get h with
          | aggregate a =>
            rw [hget] at hfinal
            exact ⟨a, hget, by simpa [Instance.isFinalized, Aggregate.isFinalized] using hfinal⟩
          | _ =>
            rw [hget] at hfinal
            cases hfinal
        have hdefine := definesWithin_define hb hdepth depth n (w - 1) _ h hn hheld hgrowing hpopped
        refine ensures_bind (P := fun _ t => Draining task.module t ∧
          Roomy describe valid parts width n (w - 1) t)
          (Ensures.mono ((draining_define depth hs hlist hfinal).and hdefine.ensures) ?_ ?_) ?_
        · rintro _ t ⟨⟨hdraining, -⟩, ht⟩
          exact ⟨hdraining, ht⟩
        · rintro e t ⟨hnot, hcycle | hpardoned⟩
          · rw [hcycle.1] at hnot
            cases hnot
          · exact hpardoned
        · exact fun _ t ht => ih (by omega) ht.1 ht.2

/-- A request from a state at rest returns, or its stop is excused. -/
theorem returns_resolve (hb : Bounded task describe valid parts width) {ref : Ref}
    (href : DeclaresWithin task describe valid n [] ref) (hs : Reached task s)
    (ht : Truthful describe valid s)
    (hplaced : ∀ h shape, s.placed.get? h = some shape → ∃ ref, describe ref = some shape ∧
      (shape.kind = .struct ∨ shape.kind = .union)) {limits : Limits}
    (hdepth : parts.length * width + width + n < limits.depth)
    (htotal : parts.length * width + n ≤ limits.total) :
    Ensures (resolve task limits ref) s
      (fun root s' => s'.declared.get? ref = some root ∧ root < s'.graph.count)
      (Pardoned task describe valid (ref :: parts)) := by
  have hsettled := hs.settled
  have hwidth : width ≤ limits.depth := by omega
  have hdeclare := (href limits.depth (by omega) s hsettled.toWellFormed ht
    hsettled.openAliases_eq).and (((asking_placed hb.describes).keeps hb.describes limits.depth ref
      s hsettled.toWellFormed ⟨ht, hplaced⟩).and
        (declares_declare task limits.depth s ref hsettled.toWellFormed))
  have hruns : Ensures (resolve task limits ref) s (fun _ _ => True)
      (Pardoned task describe valid (ref :: parts)) := by
    refine ensures_bind (P := fun _ t => Draining task.module t ∧ Roomy describe valid parts width
      (parts.length * width + n) (parts.length * width + n) t) (Ensures.mono hdeclare ?_
        fun e t h => h.1.mono (by simp)) ?_
    · rintro root t ⟨hlength, ⟨htruth, hshapes⟩, hw, hg, -⟩
      obtain ⟨new, hholders, hlist, -⟩ := hg.waiting
      have hcount : undeclared parts t * width ≤ parts.length * width :=
        Nat.mul_le_mul_right width List.countP_le_length
      simp only [hholders, hsettled.placeholders_eq, List.nil_append, List.length_nil,
        Nat.zero_add] at hlength
      refine ⟨hsettled.grow hw hg, htruth, hshapes, hg.openAliases.trans hsettled.openAliases_eq,
        ?_, ?_⟩
      · rw [hholders, hsettled.placeholders_eq, List.nil_append]
        omega
      · rw [hlist, hsettled.worklist_eq, List.nil_append]
        omega
    · rintro root t ⟨hdraining, hroom⟩
      refine ensures_bind (P := fun _ _ => True) (Ensures.mono (returns_drain hb hwidth (by omega)
        limits.total htotal hdraining hroom) (fun _ _ h => h) fun e t h => h.mono (by simp)) ?_
      exact fun _ _ _ => trivial
  unfold Ensures
  cases hr : resolve task limits ref s with
  | ok root s' =>
    have hdeclared := declared_of_resolve hs hr
    exact ⟨hdeclared, (hs.resolve hr).settled.declared ref root hdeclared⟩
  | error e s' => exact hruns.of_error hr

end Resolver

/-! ## 4. Tables

The references that parts are given by, read off the tables of a module. -/

/-- The shapes that a module was given. -/
def ModuleTable.shapes (table : ModuleTable) : List Shape :=
  table.byName.map Prod.snd ++ table.byId.map Prod.snd

namespace Catalog

/-- The types of the bases and fields in a module. -/
def partRefs (c : Catalog) (module : String) : List Ref :=
  (c.tableOrNew module).shapes.flatMap Shape.partRefs

/-- What is found is in the tables, or is a built-in scalar. -/
theorem mem_shapes_of_lookup {table : ModuleTable} {ref : Ref} {shape : Shape}
    (h : table.lookup ref = .ok (some shape)) (hkind : shape.kind ≠ .primitive) :
    shape ∈ table.shapes := by
  cases ref with
  | id n =>
    exact List.mem_append_right _ (List.mem_map_of_mem (Assoc.mem_of_get? (Except.ok.inj h)))
  | name text =>
    obtain ⟨key, -, hfound⟩ := (listed_of_lookup h).resolve_right hkind
    exact List.mem_append_left _ (List.mem_map_of_mem (Assoc.mem_of_get? hfound))

end Catalog

namespace Resolver

variable {σ : Type} {source : Source σ} {c : Catalog} {module : String} {valid : σ → Prop}

/-- Finitely many chains that end are bounded by one number. -/
theorem exists_bounded (hd : Describes ⟨source, module⟩ (c.describe module) valid)
    (hparts : ∀ r ∈ c.partRefs module, Ends (c.describe module) [] r) :
    ∃ width, Bounded ⟨source, module⟩ (c.describe module) valid (c.partRefs module) width := by
  obtain ⟨width, hwidth⟩ := exists_forall_of_mono
    (P := fun n r => DeclaresWithin ⟨source, module⟩ (c.describe module) valid n [] r)
    (fun _ _ _ hle h => h.mono hle) (c.partRefs module) fun r hr => (hparts r hr).within hd
  refine ⟨width, hd, fun ref shape hshape hkind r hr => ?_, hwidth⟩
  obtain ⟨table, htable, hlookup⟩ := Catalog.lookup_of_describe hshape
  rw [Catalog.partRefs, Catalog.tableOrNew, htable]
  refine List.mem_flatMap.mpr ⟨shape, Catalog.mem_shapes_of_lookup hlookup ?_, hr⟩
  rcases hkind with hkind | hkind <;> simp [hkind]

/-- **Requests return**, whatever was requested before: where the chains of references end, there
are limits that suffice, and then a request gives the instance of its reference, or its stop is
excused: the source failed or was stopped, a number is too long, or the key of an enumeration was
taken while its underlying type was declared. -/
theorem resolve_returns (hc : c.Built) (hsource : AnswersFrom source c module valid)
    (hparts : ∀ r ∈ c.partRefs module, Ends (c.describe module) [] r) {ref : Ref}
    (href : Ends (c.describe module) [] ref) :
    ∃ n, ∀ session s, valid session →
      Relation.ReflTransGen (Returned ⟨source, module⟩) (State.start session) s →
      ∀ limits : Limits, n ≤ limits.depth → n ≤ limits.total →
        Ensures (resolve ⟨source, module⟩ limits ref) s
          (fun root s' => s'.declared.get? ref = some root ∧ root < s'.graph.count)
          (Pardoned ⟨source, module⟩ (c.describe module) valid (ref :: c.partRefs module)) := by
  have hd := hsource.describes hc
  obtain ⟨width, hb⟩ := exists_bounded hd hparts
  obtain ⟨n, hn⟩ := href.within hd
  refine ⟨(c.partRefs module).length * width + width + n + 1, ?_⟩
  intro session s hvalid hs limits hdepth htotal
  obtain ⟨htruth, hplaced⟩ := (asking_placed hd).requests hd (requests_of_returned hs)
    (settled_start module session).toWellFormed
    ⟨⟨hvalid, fun _ _ h => by cases h⟩, fun _ _ h => by cases h⟩
  exact returns_resolve hb hn (reached_of_returned hs) htruth hplaced (by omega) (by omega)

/-- The chain ends at once. -/
theorem Ends.of_calls_nil {describe : Description} {opens : List String} {ref : Ref}
    (h : calls describe ref = []) : Ends describe opens ref :=
  .intro fun c hc => by
    rw [h] at hc
    cases hc

/-- The chain goes on with one reference. -/
theorem Ends.of_calls_to {describe : Description} {opens : List String} {ref next : Ref}
    (h : calls describe ref = [.to next]) (hnext : Ends describe opens next) :
    Ends describe opens ref :=
  .intro fun c hc _ => by
    rw [h] at hc
    obtain rfl := List.mem_singleton.mp hc
    exact hnext

/-- After the struct with a field of unknown type, the list node can be requested. -/
theorem resolve_returns_node : ∃ n s,
    Relation.ReflTransGen (Returned ⟨Session.source {}, "m"⟩)
      (State.start ⟨nodeTables, false⟩) s ∧ s.graph.count = 2 ∧
    ∀ limits : Limits, n ≤ limits.depth → n ≤ limits.total →
      Ensures (resolve ⟨Session.source {}, "m"⟩ limits (.name "Node")) s
        (fun root s' => s'.declared.get? (.name "Node") = some root ∧ root < s'.graph.count)
        (Pardoned ⟨Session.source {}, "m"⟩ (nodeTables.describe "m")
          (fun t => t.catalog.tables = nodeTables.tables)
          [.name "Node", .name "Node*", .name "X"]) := by
  have hruns : returns (resolve ⟨Session.source {}, "m"⟩ ⟨8, 8⟩ (.name "S"))
      (State.start ⟨nodeTables, false⟩) (fun _ s => decide (s.graph.count = 2)) = true := by
    decide +kernel
  obtain ⟨root, s, hrun, hcount⟩ := exists_of_returns hruns
  have hs : Relation.ReflTransGen (Returned ⟨Session.source {}, "m"⟩)
      (State.start ⟨nodeTables, false⟩) s := .single ⟨_, _, _, hrun⟩
  have hc : nodeTables.Built := (Catalog.Built.empty.add "m" _ none).add "m" _ none
  have hrefs : nodeTables.partRefs "m" = [.name "Node*", .name "X"] := by decide +kernel
  have hnode : Ends (nodeTables.describe "m") [] (.name "Node") :=
    .of_calls_nil (by decide +kernel)
  have hpointer : calls (nodeTables.describe "m") (.name "Node*") = [.to (.name "Node")] := by
    decide +kernel
  have hparts : ∀ r ∈ nodeTables.partRefs "m", Ends (nodeTables.describe "m") [] r := by
    simp only [hrefs, List.mem_cons, List.not_mem_nil, or_false, forall_eq_or_imp, forall_eq]
    exact ⟨.of_calls_to hpointer hnode, .of_calls_nil (by decide +kernel)⟩
  obtain ⟨n, hn⟩ := resolve_returns hc (answersFrom_session {} nodeTables "m") hparts hnode
  rw [hrefs] at hn
  exact ⟨n, s, hs, of_decide_eq_true hcount, hn ⟨nodeTables, false⟩ s rfl hs⟩

/-- The tables of an enumeration that goes by the name of the scalar it is made of. -/
def scalarTables : Catalog :=
  Catalog.add {} "m" (Shape.ofEnumeration "int32" none [("A", 0)] none) none

/-- **A request can stop although nothing failed**: the scalar under an enumeration is registered
under the key of the enumeration, after this was looked up and before it is taken. -/
theorem exists_taken : scalarTables.partRefs "m" = [] ∧
    Ends (scalarTables.describe "m") [] (.name "int32") ∧
    ∃ s, resolve ⟨Session.source {}, "m"⟩ Limits.usual (.name "int32")
      (State.start ⟨scalarTables, false⟩) =
        .error (.registry "key m!int32 already registered to <Primitive int32>") s := by
  have hruns : stops (resolve ⟨Session.source {}, "m"⟩ Limits.usual (.name "int32"))
      (State.start ⟨scalarTables, false⟩) (fun e _ => match e with
        | .registry message => decide (message =
          "key m!int32 already registered to <Primitive int32>")
        | _ => false) = true := by
    decide +kernel
  obtain ⟨e, s, hrun, hmessage⟩ := exists_of_stops hruns
  refine ⟨by decide +kernel, .of_calls_nil (by decide +kernel), ?_⟩
  cases e with
  | registry message => exact ⟨s, by rw [hrun, of_decide_eq_true hmessage]⟩
  | _ => cases hmessage

end Resolver

end NativeTypes
