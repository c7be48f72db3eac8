/-
NativeTypes.Proofs.Resolver.ChainEnds — what typedefs are resolved to.

In tables whose typedefs go by canonical names of their own every chain of
typedefs leads to a type, or into a ring. After any requests, in whatever order
and however they ended, all that was declared on the way to a type is the
instance of that type (`OneInstance`), and what leads into a ring is one
placeholder with one warning (`RingOutcome`). A request for a typedef that
leads into a ring needs nothing else to end; one that leads to a type ends
where that type does.

`typedefs_end` puts this together. It leaves out rings that something else has
a name of: `exists_misled` are tables where a struct does, and tables where a
template is reached again from its own argument.

What is said about states and what is said about requests have different
conditions, and are kept apart until the end. That typedefs are one instance
holds after any requests, also after those that stopped, and asks nothing of
limits. That a request returns asks for limits that suffice, and says nothing
where the source fails.

That every chain ends somewhere is a count: the typedefs of a module have
finitely many names, and a chain that is longer than that has met one of them
twice (`exists_names`).
-/
import NativeTypes.Proofs.Resolver.Chaining
import NativeTypes.Proofs.Resolver.Apart

namespace NativeTypes.Resolver

variable {σ : Type} {source : Source σ} {task : Task σ} {describe : Description}
  {valid : σ → Prop} {c : Catalog} {module text : String} {a f ref x y : Ref} {s s' t : State σ}
  {h : Handle}

/-! ## 1. Tables -/

/-- Every typedef in the tables has a canonical name, and its target is a name. One that is found
by an id has the target of the one that is found by its name. -/
structure TypedefsNamed (table : ModuleTable) : Prop where
  canonical : ∀ shape ∈ table.shapes, shape.kind = .typedef → isCanonical shape.name = true
  target : ∀ shape ∈ table.shapes, shape.kind = .typedef →
    ∃ text base suffixes, shape.target = some (.name text) ∧ Unwraps text base suffixes
  twin : ∀ shape ∈ table.shapes, shape.kind = .typedef → ∀ named,
    table.byName.get? shape.name = some named → named.kind = .typedef →
      named.target = shape.target

/-- A canonical name is found by itself, and is its own key. -/
theorem keyOfName_of_isCanonical (h : isCanonical text = true) :
    keyOfName text = .named text ∧ ∀ key, TypeName.nameKey? text = some key → key = text := by
  obtain ⟨t, hparse, ht⟩ := (Option.any_eq_true _ _).mp h
  obtain ⟨hsuffixes, hformat⟩ := Bool.and_eq_true_iff.mp ht
  have hformat : t.format = text := beq_iff_eq.mp hformat
  constructor
  · have hplain : TypeName.parsePlain? text = some t := by
      simp [TypeName.parsePlain?, hparse, hsuffixes]
    simp only [keyOfName, hplain, hformat]
  · intro key hkey
    simp only [TypeName.nameKey?, parse_of_parse? hparse, TypeName.written?,
      Option.ite_none_right_eq_some, Option.some.injEq] at hkey
    exact hkey.2.symm.trans hformat

/-- What is asked of the tables is what is asked of their description. -/
theorem PlainTypedefs.of_named (hc : c.Built)
    (htables : ∀ table, c.tables.get? module = some table → TypedefsNamed table) :
    PlainTypedefs (c.describe module) := by
  have hmem {ref : Ref} {shape : Shape} (hshows : Shows (c.describe module) ref shape)
      (hkind : shape.kind = .typedef) : ∃ table, c.tables.get? module = some table ∧
        TypedefsNamed table ∧ shape ∈ table.shapes := by
    obtain ⟨table, htable, hlookup⟩ := Catalog.lookup_of_describe hshows.eq
    exact ⟨table, htable, htables table htable,
      Catalog.mem_shapes_of_lookup hlookup (by simp [hkind])⟩
  have hlisted {text : String} {shape : Shape}
      (hshows : Shows (c.describe module) (.name text) shape) (hkind : shape.kind = .typedef) :
      ∃ table, c.tables.get? module = some table ∧ table.byName.get? text = some shape :=
    Option.bind_eq_some_iff.mp
      (Catalog.listed_of_describe hshows.described hshows.eq (by simp [hkind]))
  refine ⟨fun ref shape hshows hkind => ?_, fun text shape hshows hkind => ?_,
    fun n shape target text hshows hkind htarget hkey htypedef => ?_⟩
  · obtain ⟨table, -, htable, hshape⟩ := hmem hshows hkind
    exact htable.target shape hshape hkind
  · obtain ⟨_, -, hnamed, hshape⟩ := hmem hshows hkind
    obtain ⟨table, htable, hget⟩ := hlisted hshows hkind
    obtain ⟨hown, hself⟩ := keyOfName_of_isCanonical (hnamed.canonical shape hshape hkind)
    have hkey := (hc.keyed htable).key text shape hget
    rw [ModuleTable.keyOf?] at hkey
    split at hkey
    · cases hkey
    · rename_i hname
      exact ⟨by simpa using hname, by rw [hown, hself text hkey]⟩
  · obtain ⟨table, htable, hnamed, hshape⟩ := hmem hshows hkind
    obtain ⟨hown, -⟩ := keyOfName_of_isCanonical (hnamed.canonical shape hshape hkind)
    obtain ⟨named, other, hshows', hkind', hother⟩ := htypedef
    obtain ⟨table', htable', hget⟩ := hlisted hshows' hkind'
    cases htable.symm.trans htable'
    cases hown.symm.trans hkey
    exact .typedef hshows' hkind' ((hnamed.twin shape hshape hkind named hget hkind').trans htarget)

/-- The names of the typedefs in a module. -/
theorem exists_names (c : Catalog) (module : String) : ∃ names : List String,
    ∀ text, IsTypedef (c.describe module) (.name text) → text ∈ names := by
  cases htable : c.tables.get? module with
  | none =>
    refine ⟨[], fun text ⟨shape, _, hshows, _⟩ => ?_⟩
    obtain ⟨table, htable', -⟩ := Catalog.lookup_of_describe hshows.eq
    cases htable.symm.trans htable'
  | some table =>
    refine ⟨table.byName.map Prod.fst, fun text ⟨shape, _, hshows, hkind, _⟩ => ?_⟩
    obtain ⟨table', htable', hget⟩ := Option.bind_eq_some_iff.mp
      (Catalog.listed_of_describe hshows.described hshows.eq (by simp [hkind]))
    cases htable.symm.trans htable'
    exact List.mem_map_of_mem (Assoc.mem_of_get? hget)

/-! ## 2. Chains that leave the typedefs -/

/-- All that a reference leads to is one instance, and the names of typedefs among it are keys of
it, unless something else was registered under them. -/
structure OneInstance (describe : Description) (ref : Ref) (s : State σ) (h : Handle) : Prop where
  declared : ∀ y, LeadsTo describe ref y → s.declared.get? y = some h
  keys : ∀ text, LeadsTo describe ref (.name text) → IsTypedef describe (.name text) →
    ∃ holder, s.registry.get? (.named text) = some holder ∧ (holder = h ∨
      Claims describe (Met s) (.named text) ∧ s.registry.keyOf? holder = some (.named text))

/-- All on the way to a type that is declared is declared as that type. -/
theorem Chained.oneInstance (hs : Chained describe valid module f (Met s) s)
    (hfinal : IsFinal describe f) (hlead : LeadsTo describe ref f)
    (hh : s.declared.get? ref = some h) : OneInstance describe ref s h := by
  -- whatever it leads to is declared after it
  have hpassed : ∀ y, LeadsTo describe ref y →
      LeadsTo describe y f ∧ s.declared.get? y = some h := by
    intro y hy
    induction hy with
    | refl => exact ⟨hlead, hh⟩
    | @tail y z _ hstep ih =>
      obtain ⟨hyf, hy⟩ := ih
      have hzf : LeadsTo describe z f := by
        rcases Relation.ReflTransGen.cases_head hyf with rfl | ⟨b, hb, hrest⟩
        · exact absurd hstep (hfinal z)
        · exact hb.unique hstep ▸ hrest
      have hnot : ¬LeadsTo describe f y := fun hback => by
        obtain rfl := hfinal.eq hback
        exact hfinal z hstep
      obtain ⟨k, hk⟩ := Option.isSome_iff_exists.mp (hs.closed y z h hstep hzf hnot hy)
      exact ⟨hzf, hs.uniform z y k h hzf hyf hk hy ▸ hk⟩
  refine ⟨fun y hy => (hpassed y hy).2, fun text hy htypedef => ?_⟩
  obtain ⟨hlast, hdeclared⟩ := hpassed _ hy
  obtain ⟨holder, hholder⟩ :=
    Option.isSome_iff_exists.mp (hs.bound text h ⟨hlast, htypedef⟩ hdeclared)
  refine ⟨holder, hholder, ?_⟩
  rcases hs.keys text holder ⟨hlast, htypedef⟩ hholder with hclaims | ⟨x, hx, hxh⟩
  · exact .inr hclaims
  · exact .inl (hs.uniform x _ holder h hx hlast hxh hdeclared)

/-! ## 3. Chains that run round -/

/-- What is known of a ring: nothing that leads into it was declared and no warning is about it, or
all that was declared is one placeholder, which one warning is about. -/
inductive RingOutcome (describe : Description) (module : String) (a : Ref) (s : State σ) : Prop
  | blank : Blank describe a s.declared → Unreported describe a s.diagnostics →
      RingOutcome describe module a s
  | placeholder {h : Handle} {text : String} : RingPlaceholder describe module a s h text →
      (∀ x k, LeadsTo describe x a → s.declared.get? x = some k → k = h) →
      RingOutcome describe module a s

theorem Chained.ringOutcome (hs : Chained describe valid module a (Met s) s)
    (hring : IsRing describe a) (hun : Unclaimed describe a (Met s)) :
    RingOutcome describe module a s := by
  by_cases hblank : Blank describe a s.declared
  · exact .blank hblank (hs.unreported hring hun hblank)
  · obtain ⟨x, hx⟩ := not_forall.mp hblank
    obtain ⟨hlead, hne⟩ := Classical.not_imp.mp hx
    obtain ⟨h, hh⟩ := Option.ne_none_iff_exists'.mp hne
    obtain ⟨text, hp⟩ := hs.placeholder hring hun x h hlead hh
    exact .placeholder hp fun y k hy hk => hs.uniform y x k h hy hlead hk hh

/-- **A request for what leads into a ring ends**, whatever else there is in the module. -/
theorem exists_ensures_resolve_ring (hc : c.Built) (hsource : AnswersFrom source c module valid)
    (hplain : PlainTypedefs (c.describe module)) (hlead : LeadsTo (c.describe module) ref a)
    (hring : IsRing (c.describe module) a) :
    ∃ n, ∀ session s, valid session →
      Relation.ReflTransGen (Returned ⟨source, module⟩) (State.start session) s →
      ∀ limits : Limits, n ≤ limits.depth →
        Ensures (resolve ⟨source, module⟩ limits ref) s
          (fun x t => t.declared.get? ref = some x ∧ Returned ⟨source, module⟩ s t)
          (Pardoned ⟨source, module⟩ (c.describe module) valid [ref]) := by
  have hd := hsource.describes hc
  obtain ⟨n, hn⟩ := (Ends.of_ring hlead hring).within hd
  refine ⟨n, fun session s hvalid hs limits hdepth => ?_⟩
  have hattempted : Attempted ⟨source, module⟩ valid s :=
    ⟨session, hvalid, requests_of_returned hs⟩
  obtain ⟨hchained, hopen⟩ := hattempted.chained hd hplain (.ring hring)
  have hrest := (reached_of_returned hs).settled
  have hbounded := hn limits.depth hdepth s hattempted.wellFormed hchained.truthful hopen
  cases hr : declare ⟨source, module⟩ limits.depth ref s with
  | error e t =>
    unfold Ensures
    rw [resolve, run_bind_error hr]
    exact hbounded.of_error hr
  | ok x t =>
    -- nothing was put on the worklist
    have hworklist := ((declaresChained_declare hd hplain (.ring hring) limits.depth ref s
      hattempted.wellFormed hchained (.of_nil hopen)).of_ok hr).worklist hring hlead
    have hrun : resolve ⟨source, module⟩ limits ref s = .ok x t := by
      rw [resolve, run_bind_ok hr,
        run_bind_ok (drain_nil limits.depth limits.total (hworklist.trans hrest.worklist_eq))]
      rfl
    unfold Ensures
    rw [hrun]
    obtain ⟨-, -, -, hdeclared⟩ :=
      (declares_declare _ limits.depth s ref hattempted.wellFormed).of_ok hr
    exact ⟨hdeclared, limits, ref, x, hrun⟩

/-! ## 4. Typedefs -/

/-- No typedef is open between requests, whether they returned or stopped. -/
theorem Attempted.openAliases_eq (h : Attempted task valid s) : s.openAliases = [] := by
  obtain ⟨session, -, hs⟩ := h
  refine requests_keep (I := fun t => t.openAliases = []) (fun n ref t hw hopen => ?_)
    (fun t t' hknown hopen => ?_) hs (settled_start task.module session).toWellFormed rfl
  · exact Ensures.mono (declares_declare task n t ref hw)
      (fun _ _ ⟨_, hg, _⟩ => hg.openAliases.trans hopen)
      fun _ _ ⟨_, hg, _⟩ => hg.openAliases.trans hopen
  · simp only [known, Prod.mk.injEq] at hknown
    exact hknown.2.2.2.2.2.1.trans hopen

/-- There are limits with which a request, at any time between requests that returned, gives an
instance as described, or its stop is excused. -/
def Answered (source : Source σ) (c : Catalog) (module : String) (valid : σ → Prop)
    (roots : List Ref) (ref : Ref) (Q : Handle → State σ → Prop) : Prop :=
  ∃ n, ∀ session s, valid session →
    Relation.ReflTransGen (Returned ⟨source, module⟩) (State.start session) s →
    ∀ limits : Limits, n ≤ limits.depth → n ≤ limits.total →
      Ensures (resolve ⟨source, module⟩ limits ref) s Q
        (Pardoned ⟨source, module⟩ (c.describe module) valid roots)

/-- **Chains of typedefs end.** Each leads to a type that is no typedef, or into a ring. Whatever
was requested and however that ended, no typedef is open afterwards; and unless the type is reached
again from itself, or something else has a name on the ring, typedefs on the way to a type are the
instance of that type, which takes their names where these are free, and typedefs that lead into a
ring are one placeholder that is reported once. A request for a typedef returns that, or its stop
is excused: into a ring always, to a type if the chains of references end there and in the parts of
structs. -/
theorem typedefs_end (hc : c.Built) (hsource : AnswersFrom source c module valid)
    (hplain : PlainTypedefs (c.describe module)) :
    (∀ text, IsTypedef (c.describe module) (.name text) →
      (∃ f, LeadsTo (c.describe module) (.name text) f ∧ IsFinal (c.describe module) f) ∨
        ∃ base, LeadsTo (c.describe module) (.name text) (.name base) ∧
          IsRing (c.describe module) (.name base)) ∧
    (∀ text f, LeadsTo (c.describe module) (.name text) f → IsFinal (c.describe module) f →
      ¬Relation.TransGen (AsksFor (c.describe module)) f f →
      (∀ s, Attempted ⟨source, module⟩ valid s → ∀ h, s.declared.get? (.name text) = some h →
        OneInstance (c.describe module) (.name text) s h) ∧
      (Ends (c.describe module) [] f → (∀ r ∈ c.partRefs module, Ends (c.describe module) [] r) →
        Answered source c module valid (.name text :: c.partRefs module) (.name text)
          fun h t => OneInstance (c.describe module) (.name text) t h)) ∧
    (∀ text a, LeadsTo (c.describe module) (.name text) a → IsRing (c.describe module) a →
      (∀ s, Attempted ⟨source, module⟩ valid s → Unclaimed (c.describe module) a (Met s) →
        RingOutcome (c.describe module) module a s) ∧
      Answered source c module valid [.name text] (.name text) fun h t =>
        Unclaimed (c.describe module) a (Met t) → ∃ name,
          RingPlaceholder (c.describe module) module a t h name) ∧
    ∀ s, Attempted ⟨source, module⟩ valid s → s.openAliases = [] := by
  have hd := hsource.describes hc
  have hnext {session : σ} {s t : State σ} (hvalid : valid session)
      (hs : Relation.ReflTransGen (Returned ⟨source, module⟩) (State.start session) s)
      (ht : Returned ⟨source, module⟩ s t) : Attempted ⟨source, module⟩ valid t :=
    ⟨session, hvalid, requests_of_returned (hs.tail ht)⟩
  refine ⟨fun text htypedef => ?_, fun text f hlead hfinal hnot => ?_,
    fun text a hlead hring => ⟨fun s hs hun => ?_, ?_⟩, fun s hs => ?_⟩
  · obtain ⟨names, hnames⟩ := exists_names c module
    exact hplain.exists_end names hnames htypedef
  · have hone (s : State σ) (hs : Attempted ⟨source, module⟩ valid s) (h : Handle)
        (hh : s.declared.get? (.name text) = some h) :
        OneInstance (c.describe module) (.name text) s h :=
      (hs.chained hd hplain (.final hfinal hnot)).1.oneInstance hfinal hlead hh
    refine ⟨hone, fun hends hparts => ?_⟩
    obtain ⟨n, hn⟩ := exists_ensures_resolve hc hsource hparts (.of_final hlead hends)
    refine ⟨n, fun session s hvalid hs limits hdepth htotal => ?_⟩
    exact Ensures.mono (hn session s hvalid hs limits hdepth htotal)
      (fun h t ⟨hh, ht⟩ => hone t (hnext hvalid hs ht) h hh) fun _ _ he => he
  · exact (hs.chained hd hplain (.ring hring)).1.ringOutcome hring hun
  · obtain ⟨n, hn⟩ := exists_ensures_resolve_ring hc hsource hplain hlead hring
    refine ⟨n, fun session s hvalid hs limits hdepth _ => ?_⟩
    refine Ensures.mono (hn session s hvalid hs limits hdepth) ?_ fun _ _ he => he
    rintro h t ⟨hh, ht⟩ hun
    exact ((hnext hvalid hs ht).chained hd hplain (.ring hring)).1.placeholder hring hun _ h
      hlead hh
  · exact hs.openAliases_eq

/-- The tables of two typedefs that stand for each other, one that leads to them, and two on the
way to a struct. -/
def roundTables : Catalog :=
  (((((Catalog.add {} "m" (Shape.ofAlias "A" (.name "B")) none).add "m"
    (Shape.ofAlias "B" (.name "C")) none).add "m" (Shape.ofAlias "C" (.name "B")) none).add "m"
    (Shape.ofAlias "D" (.name "E")) none).add "m" (Shape.ofAlias "E" (.name "S")) none).add "m"
    (Shape.ofAggregate "S" (some 4) [] [] false) none

theorem built_roundTables : roundTables.Built :=
  (((((Catalog.Built.empty.add "m" _ none).add "m" _ none).add "m" _ none).add "m" _ none).add "m"
    _ none).add "m" _ none

/-- The shapes in the tables, and what they are. -/
theorem shape_of_roundTables {ref : Ref} {shape : Shape}
    (hshape : roundTables.describe "m" ref = some shape) (hkind : shape.kind ≠ .primitive) :
    shape.name ∈ ["A", "B", "C", "D", "E"] ∧ shape.kind = .typedef ∨
      shape.name = "S" ∧ shape.kind = .struct := by
  obtain ⟨table, htable, hlookup⟩ := Catalog.lookup_of_describe hshape
  have hmem := Catalog.mem_shapes_of_lookup hlookup hkind
  have hall : ∀ table, roundTables.tables.get? "m" = some table → ∀ shape ∈ table.shapes,
      shape.name ∈ ["A", "B", "C", "D", "E"] ∧ shape.kind = .typedef ∨
        shape.name = "S" ∧ shape.kind = .struct := by
    rintro table ⟨⟩
    decide +kernel
  exact hall table htable shape hmem

theorem plainTypedefs_roundTables : PlainTypedefs (roundTables.describe "m") := by
  refine .of_named built_roundTables fun table htable => ?_
  have hall : ∀ table, roundTables.tables.get? "m" = some table → ∀ shape ∈ table.shapes,
      shape.kind = .typedef → isCanonical shape.name = true ∧
        (∃ text ∈ ["B", "C", "E", "S"], shape.target = some (.name text) ∧
          isCanonical text = true) ∧
        table.byName.get? shape.name = some shape := by
    rintro table ⟨⟩
    decide +kernel
  have hnamed := hall table htable
  refine ⟨fun shape hshape hkind => (hnamed shape hshape hkind).1, fun shape hshape hkind => ?_,
    fun shape hshape hkind named hget _ => ?_⟩
  · obtain ⟨text, -, htarget, hcanonical⟩ := (hnamed shape hshape hkind).2.1
    exact ⟨text, text, [], htarget, .bare (isDescribed_of_isCanonical hcanonical)⟩
  · cases (hnamed shape hshape hkind).2.2.symm.trans hget
    rfl

/-- Nothing but a typedef goes by a name on the ring, as long as only type names are requested. -/
theorem unclaimed_roundTables {met : String → Prop}
    (hmet : ∀ text, met text → ∃ t, TypeName.parse text = .ok t) :
    Unclaimed (roundTables.describe "m") a met := by
  rintro text ⟨-, shape, target, hshows, hkind, -⟩ hclaims
  obtain ⟨-, hown⟩ := plainTypedefs_roundTables.own text shape hshows hkind
  obtain ⟨hname, -⟩ := (shape_of_roundTables hshows.eq (by simp [hkind])).resolve_right
    fun h => by cases hkind.symm.trans h.2
  have hnames : ∀ name ∈ ["A", "B", "C", "D", "E"], keyOfName name ≠ keyOfName "S" ∧
      (∀ kind ∈ Primitive.all, keyOfName name ≠ .primitive kind) ∧ (keyOfName name).arguments = []
      := by
    decide +kernel
  obtain ⟨hstruct, hscalar, harguments⟩ := hnames shape.name hname
  rw [← hown] at hclaims
  generalize keyOfName shape.name = key at hclaims hown hstruct hscalar harguments
  cases hclaims with
  | primitive kind => exact hscalar kind (by cases kind <;> decide) rfl
  | structural => cases harguments
  | enumeration hother hkind' =>
    rcases shape_of_roundTables hother (by simp [hkind']) with h | h
    · cases hkind'.symm.trans h.2
    · cases hkind'.symm.trans h.2
  | unsupported hother hkind' =>
    rcases shape_of_roundTables hother (by simp [hkind']) with h | h
    · cases hkind'.symm.trans h.2
    · cases hkind'.symm.trans h.2
  | @aggregate ref' shape' _ hother hkind' hkey =>
    have hnot : shape'.kind ≠ .primitive := fun h => by simp [Shape.isAggregate, h] at hkind'
    rcases shape_of_roundTables hother hnot with h | h
    · simp [Shape.isAggregate, h.2] at hkind'
    · have htitle : shape'.title = "S" := by simp [Shape.title, h.1]
      have hplain : (TypeName.parsePlain? "S").filter TypeName.isTemplate = none := by
        decide +kernel
      rw [htitle, AggregateKey, hplain] at hkey
      exact hstruct hkey
  | @placeholder ref' hdescribed hnot =>
    have heq : labelOf ref' = text := congrArg Key.name hown
    obtain rfl := eq_of_labelOf_eq hdescribed hshows.described heq
    exact hnot shape hshows.eq hkind
  | refused hother hparse =>
    obtain ⟨t, ht⟩ := hmet _ hother
    cases hparse.symm.trans ht

/-- After requests for the typedef that leads into the ring, for one on the ring and for one on the
way to the struct, the first two are one placeholder with one warning, and the third is the
struct, under the names of both typedefs; and a request for the first one is answered. -/
theorem typedefs_end_round : ∃ s ring struct name,
    Attempted ⟨Session.source {}, "m"⟩ (fun t => t.catalog.tables = roundTables.tables) s ∧
      s.declared.get? (.name "A") = some ring ∧ s.declared.get? (.name "C") = some ring ∧
      RingPlaceholder (roundTables.describe "m") "m" (.name "B") s ring name ∧
      OneInstance (roundTables.describe "m") (.name "D") s struct ∧ s.openAliases = [] ∧
      Answered (Session.source {}) roundTables "m" (fun t => t.catalog.tables = roundTables.tables)
        [.name "A"] (.name "A") fun h t =>
          Unclaimed (roundTables.describe "m") (.name "B") (Met t) →
            ∃ name, RingPlaceholder (roundTables.describe "m") "m" (.name "B") t h name := by
  have hstep {text target : String} (hcanonical : isCanonical text = true)
      (hshape : roundTables.describe "m" (.name text) = some (Shape.ofAlias text (.name target))) :
      StandsFor (roundTables.describe "m") (.name text) (.name target) :=
    .typedef ⟨isDescribed_of_isCanonical hcanonical, hshape⟩ rfl rfl
  have hab : StandsFor (roundTables.describe "m") (.name "A") (.name "B") :=
    hstep (by decide +kernel) (by decide +kernel)
  have hbc : StandsFor (roundTables.describe "m") (.name "B") (.name "C") :=
    hstep (by decide +kernel) (by decide +kernel)
  have hcb : StandsFor (roundTables.describe "m") (.name "C") (.name "B") :=
    hstep (by decide +kernel) (by decide +kernel)
  have hde : StandsFor (roundTables.describe "m") (.name "D") (.name "E") :=
    hstep (by decide +kernel) (by decide +kernel)
  have hds : LeadsTo (roundTables.describe "m") (.name "D") (.name "S") :=
    .tail (.single hde) (hstep (by decide +kernel) (by decide +kernel))
  have hring : IsRing (roundTables.describe "m") (.name "B") :=
    ⟨⟨Shape.ofAlias "B" (.name "C"), .name "C",
      ⟨isDescribed_of_isCanonical (by decide +kernel), by decide +kernel⟩, rfl, rfl⟩,
      .tail (.single hbc) hcb⟩
  have hstruct : roundTables.describe "m" (.name "S") =
      some (Shape.ofAggregate "S" (some 4) [] [] false) := by decide +kernel
  have hfinal : IsFinal (roundTables.describe "m") (.name "S") := by
    refine (isTypedef_or_isFinal (isDescribed_of_isCanonical (by decide +kernel))).resolve_left ?_
    rintro ⟨shape, _, hshows, hkind, -⟩
    cases hstruct.symm.trans hshows.eq
    cases hkind
  have hnot : ¬Relation.TransGen (AsksFor (roundTables.describe "m")) (.name "S") (.name "S") := by
    intro h
    obtain ⟨_, ⟨c, hc, -⟩, -⟩ := Relation.TransGen.head'_iff.mp h
    have hnone : calls (roundTables.describe "m") (.name "S") = [] := by decide +kernel
    rw [hnone] at hc
    cases hc
  have hruns : returns (resolve ⟨Session.source {}, "m"⟩ ⟨8, 8⟩ (.name "A"))
      (State.start ⟨roundTables, false⟩) (fun _ s =>
        returns (resolve ⟨Session.source {}, "m"⟩ ⟨8, 8⟩ (.name "C")) s fun _ s =>
          returns (resolve ⟨Session.source {}, "m"⟩ ⟨8, 8⟩ (.name "D")) s fun _ s =>
            (s.declared.get? (.name "A")).isSome && (s.declared.get? (.name "C")).isSome &&
              (s.declared.get? (.name "D")).isSome && allParsed s) = true := by
    decide +kernel
  obtain ⟨_, s₁, hfirst, hrest⟩ := exists_of_returns hruns
  obtain ⟨_, s₂, hsecond, hrest⟩ := exists_of_returns hrest
  obtain ⟨_, s, hthird, hcheck⟩ := exists_of_returns hrest
  simp only [Bool.and_eq_true, Option.isSome_iff_exists] at hcheck
  obtain ⟨⟨⟨⟨x, hx⟩, y, hy⟩, z, hz⟩, hparsed⟩ := hcheck
  have hs : Attempted ⟨Session.source {}, "m"⟩
      (fun t => t.catalog.tables = roundTables.tables) s :=
    ⟨⟨roundTables, false⟩, rfl, ((Relation.ReflTransGen.single (.returned hfirst)).tail
      (.returned hsecond)).tail (.returned hthird)⟩
  have hmet : ∀ text, Met s text → ∃ t, TypeName.parse text = .ok t := by
    intro text hmet
    obtain ⟨t, ht⟩ := Option.isSome_iff_exists.mp (parse?_of_allParsed hparsed hmet)
    exact ⟨t, parse_of_parse? ht⟩
  obtain ⟨-, htypes, hrings, hopen⟩ := typedefs_end built_roundTables
    (answersFrom_session {} roundTables "m") plainTypedefs_roundTables
  obtain ⟨houtcome, hanswered⟩ := hrings "A" (.name "B") (.single hab) hring
  cases houtcome s hs (unclaimed_roundTables hmet) with
  | blank hblank => cases (hblank _ (.single hab)).symm.trans hx
  | @placeholder h text hp hall =>
    obtain rfl := hall _ x (.single hab) hx
    obtain rfl := hall _ y (.single hcb) hy
    exact ⟨s, _, z, text, hs, hx, hy, hp,
      (htypes "D" (.name "S") hds hfinal hnot).1 s hs z hz, hopen s hs, hanswered⟩

/-- The tables of a typedef of a struct with an empty argument list, and of a typedef of itself by
the name of that struct. -/
def misledTables : Catalog :=
  ((Catalog.add {} "m" (Shape.ofAlias "A" (.name "B<>")) none).add "m"
    (Shape.ofAlias "B" (.name "B")) none).add "m"
    (Shape.ofAggregate "B<>" (some 4) [] [] false) none

/-- The struct with an empty argument list, as it ends. -/
def misledAggregate : Aggregate where
  name := "B<>"
  size := some 4
  template := some { baseName := "B", arguments := [] }
  stage := .complete

/-- The tables of a template that two typedefs stand for, of which one is its argument. -/
def innerTables : Catalog :=
  ((Catalog.add {} "m" (Shape.ofAlias "T" (.name "Foo<T>")) none).add "m"
    (Shape.ofAlias "U" (.name "Foo<T>")) none).add "m"
    (Shape.ofAggregate "Foo<T>" (some 4) [] [] false) none

/-- **A typedef that stands for itself can be a struct**, without a warning: the key of `B<>` is
that of `B`. And two typedefs of one template can be two instances, if one of them is its
argument. -/
theorem exists_misled :
    (misledTables.describe "m" (.name "B") = some (Shape.ofAlias "B" (.name "B")) ∧
      ∃ h s, resolveBoth ⟨Session.source {}, "m"⟩ Limits.usual "A" "B"
          (State.start ⟨misledTables, false⟩) = .ok (h, h) s ∧
        (∃ a, s.graph.get h = .aggregate a) ∧ s.diagnostics = []) ∧
    (innerTables.describe "m" (.name "T") = some (Shape.ofAlias "T" (.name "Foo<T>")) ∧
      innerTables.describe "m" (.name "U") = some (Shape.ofAlias "U" (.name "Foo<T>")) ∧
      ∃ h h' s, resolveBoth ⟨Session.source {}, "m"⟩ Limits.usual "U" "T"
          (State.start ⟨innerTables, false⟩) = .ok (h, h') s ∧ h ≠ h') := by
  have hmisled : returns (resolveBoth ⟨Session.source {}, "m"⟩ Limits.usual "A" "B")
      (State.start ⟨misledTables, false⟩) (fun roots s => decide (roots.1 = roots.2 ∧
        s.graph.get roots.1 = .aggregate misledAggregate ∧ s.diagnostics = [])) = true := by
    decide +kernel
  have hinner : returns (resolveBoth ⟨Session.source {}, "m"⟩ Limits.usual "U" "T")
      (State.start ⟨innerTables, false⟩) (fun roots _ => decide (roots.1 ≠ roots.2)) = true := by
    decide +kernel
  refine ⟨⟨by decide +kernel, ?_⟩, by decide +kernel, by decide +kernel, ?_⟩
  · obtain ⟨⟨h, h'⟩, s, hrun, hcheck⟩ := exists_of_returns hmisled
    obtain ⟨heq, hget, hnone⟩ := of_decide_eq_true hcheck
    obtain rfl : h = h' := heq
    exact ⟨h, s, hrun, ⟨_, hget⟩, hnone⟩
  · obtain ⟨⟨h, h'⟩, s, hrun, hne⟩ := exists_of_returns hinner
    exact ⟨h, h', s, hrun, of_decide_eq_true hne⟩

end NativeTypes.Resolver
