/-
NativeTypes.Proofs.Resolver.Remembered — the tables of a resolver agree,
whatever was declared or failed before.

A reference is remembered at the end of its declaration. If it could be
remembered in the middle as well, the end would overwrite that, so it is shown
that this never happens: everything that a remembered reference asks for is
remembered too (`Consistent.called`), so whoever is remembered while a call of
its own is under way would have that call remembered before it ends. Two kinds
of references do not fit: an enumeration that is known by its key calls
nothing, but then its key is taken (`Consistent.taken`), and it could not be
registered at the end; a typedef that is open calls nothing and is remembered
as a placeholder. So it is assumed that no typedef is reached again while its
own target is being declared (`NoReentry`).

The instance of a name is then the instance of its base, wrapped by its
suffixes (`Consistent.spelled`): it is the same for all spellings.

What cannot be shown by the induction over calls alone is that a call leaves
its caller unremembered. The callee may reach the caller by any way, and the
hypothesis of the induction speaks of the callee only. But it does say that the
tables are consistent afterwards; and in consistent tables a caller that is
remembered has its callee remembered, at the end of whose declaration it was
shown not to be (`Remembering`, `underway_call`). So the induction carries the
state right before the callee was entered, and reads the contradiction off that
state.
-/
import NativeTypes.Proofs.Resolver.Asked
import NativeTypes.Proofs.Resolver.Labels

namespace NativeTypes.Resolver

variable {σ α : Type} {task : Task σ} {describe : Description} {valid : σ → Prop}
  {declare : Ref → Run σ Handle} {s s' t : State σ}

/-! ## 1. Two guarantees -/

theorem Ensures.and {run : Run σ α} {P Q : α → State σ → Prop} {E F : Stop → State σ → Prop}
    (h : Ensures run s P E) (h' : Ensures run s Q F) :
    Ensures run s (fun a t => P a t ∧ Q a t) fun e t => E e t ∧ F e t := by
  unfold Ensures at h h' ⊢
  cases hr : run s with
  | ok a t =>
    rw [hr] at h h'
    exact ⟨h, h'⟩
  | error e t =>
    rw [hr] at h h'
    exact ⟨h, h'⟩

/-! ## 2. Typedefs that are open -/

/-- The reference asks for the other one. -/
def AsksFor (describe : Description) (r r' : Ref) : Prop := ∃ c ∈ calls describe r, c.ref = r'

/-- No typedef is reached again while its own target is being declared. -/
def NoReentry (describe : Description) : Prop :=
  ∀ ref shape, Shows describe ref shape → shape.kind = .typedef →
    ¬ Relation.TransGen (AsksFor describe) ref ref

/-- The open typedefs are those that the reference is declared for. -/
def Opened (describe : Description) (opens : List String) (ref : Ref) : Prop :=
  ∀ label ∈ opens, ∃ r shape, Shows describe r shape ∧ shape.kind = .typedef ∧
    labelOf r = label ∧ Relation.TransGen (AsksFor describe) r ref

theorem opens_of_mem_argumentCalls {arguments : List Argument} {c : Call}
    (hc : c ∈ argumentCalls arguments) : c.opens = none := by
  induction arguments with
  | nil => cases hc
  | cons argument rest ih =>
    cases argument with
    | number n => exact ih hc
    | type t =>
      rcases List.mem_cons.mp hc with rfl | hc
      · rfl
      · exact ih hc

/-- A call that opens a typedef is that of the typedef. -/
theorem shows_of_opens {ref : Ref} {c : Call} {label : String} (hc : c ∈ calls describe ref)
    (hopens : c.opens = some label) :
    ∃ shape, Shows describe ref shape ∧ shape.kind = .typedef ∧ labelOf ref = label := by
  by_cases hshows : ∃ shape, Shows describe ref shape
  · obtain ⟨shape, hshows⟩ := hshows
    refine ⟨shape, hshows, ?_⟩
    rw [hshows.calls_eq] at hc
    cases hkind : shape.kind with
    | typedef =>
      simp only [Shape.calls, hkind] at hc
      obtain ⟨target, -, rfl⟩ := List.mem_map.mp hc
      exact ⟨rfl, Option.some.inj hopens⟩
    | struct | union =>
      simp only [Shape.calls, hkind] at hc
      rw [opens_of_mem_argumentCalls hc] at hopens
      cases hopens
    | primitive | unsupported => simp only [Shape.calls, hkind, List.not_mem_nil] at hc
    | _ =>
      simp only [Shape.calls, hkind, List.mem_append, List.mem_map] at hc
      grind [Call.to]
  · exfalso
    have hnot : describe ref = none ∨ ¬ IsDescribed ref := by
      by_contra hboth
      obtain ⟨hsome, hdescribed⟩ := not_or.mp hboth
      obtain ⟨shape, hshape⟩ := Option.ne_none_iff_exists'.mp hsome
      exact hshows ⟨shape, not_not.mp hdescribed, hshape⟩
    cases ref with
    | id n =>
      rcases hnot with hnone | hnot
      · simp [calls, hnone] at hc
      · exact hnot trivial
    | name text =>
      unfold calls at hc
      simp only at hc
      split at hc
      · cases hc
      · rename_i u hparse
        split at hc
        · obtain rfl := List.mem_singleton.mp hc
          cases hopens
        · rename_i hsuffixes
          split at hc
          · obtain rfl := List.mem_singleton.mp hc
            cases hopens
          · rename_i hformat
            rcases hnot with hnone | hnot
            · simp [hnone] at hc
            · exact hnot ⟨u, hparse, by simpa using hsuffixes, by simpa using hformat⟩

theorem Opened.call {opens : List String} {ref : Ref} {c : Call}
    (h : Opened describe opens ref) (hc : c ∈ calls describe ref) :
    Opened describe (c.opens.toList ++ opens) c.ref := by
  intro label hmem
  rcases List.mem_append.mp hmem with hmem | hmem
  · obtain ⟨shape, hshows, hkind, hlabel⟩ := shows_of_opens hc (Option.mem_toList.mp hmem)
    exact ⟨ref, shape, hshows, hkind, hlabel, .single ⟨c, hc, rfl⟩⟩
  · obtain ⟨r, shape, hshows, hkind, hlabel, hpath⟩ := h label hmem
    exact ⟨r, shape, hshows, hkind, hlabel, hpath.tail ⟨c, hc, rfl⟩⟩

/-- A typedef that is declared is not open. -/
theorem Opened.label_not_mem (hre : NoReentry describe) {opens : List String} {ref : Ref}
    {shape : Shape} (h : Opened describe opens ref) (hshows : Shows describe ref shape)
    (hkind : shape.kind = .typedef) : labelOf ref ∉ opens := by
  intro hmem
  obtain ⟨r, _, hr, -, hlabel, hpath⟩ := h _ hmem
  obtain rfl := eq_of_labelOf_eq hr.described hshows.described hlabel
  exact hre r shape hshows hkind hpath

/-! ## 3. Tables that agree -/

/-- The reference is described as an enumeration. -/
def IsEnumeration (describe : Description) (ref : Ref) : Prop :=
  ∃ shape, Shows describe ref shape ∧ shape.kind = .enumeration

/-- Answers, declared references and keys say the same. -/
structure Consistent (describe : Description) (valid : σ → Prop) (s : State σ) : Prop where
  truthful : Truthful describe valid s
  /-- What a declared reference asks for is declared. -/
  called : ∀ ref h, s.declared.get? ref = some h → ¬ IsEnumeration describe ref →
    ∀ c ∈ calls describe ref, (s.declared.get? c.ref).isSome = true
  /-- The key of a declared enumeration is taken. -/
  taken : ∀ ref h shape, s.declared.get? ref = some h → Shows describe ref shape →
    shape.kind = .enumeration → (s.registry.get? (keyOfName shape.title)).isSome = true
  /-- A declared name is its base wrapped by its suffixes. -/
  spelled : ∀ text h u, s.declared.get? (.name text) = some h → TypeName.parse text = .ok u →
    u.withoutSuffixes.isWritable = true ∧
      ∃ base, s.declared.get? (.name u.withoutSuffixes.format) = some base ∧
        s.registry.Wraps base u.wrapping h

namespace Consistent

/-- Nothing is declared. -/
theorem start {session : σ} (hvalid : valid session) :
    Consistent describe valid (State.start session) where
  truthful := ⟨hvalid, fun _ _ h => by cases h⟩
  called := fun _ _ h => by cases h
  taken := fun _ _ _ h => by cases h
  spelled := fun _ _ _ h => by cases h

/-- Keys are taken, and nothing is declared. -/
theorem widen (hs : Consistent describe valid s) (hdeclared : s'.declared = s.declared)
    (hregistry : s.registry.Widens s'.registry) (ht : Truthful describe valid s') :
    Consistent describe valid s' where
  truthful := ht
  called := hdeclared ▸ hs.called
  taken := fun ref h shape hh hshows hkind => by
    obtain ⟨holder, hholder⟩ := Option.isSome_iff_exists.mp
      (hs.taken ref h shape (hdeclared ▸ hh) hshows hkind)
    exact Option.isSome_iff_exists.mpr ⟨holder, hregistry.get? _ _ hholder⟩
  spelled := fun text h u hh hu => by
    obtain ⟨hwritable, base, hbase, hwraps⟩ := hs.spelled text h u (hdeclared ▸ hh) hu
    exact ⟨hwritable, base, hdeclared ▸ hbase, hwraps.widen hregistry⟩

/-- One more reference is declared, that was not. -/
theorem put (hs : Consistent describe valid s) {ref : Ref} {h : Handle}
    (hnew : s.declared.get? ref = none)
    (hcalled : ¬ IsEnumeration describe ref →
      ∀ c ∈ calls describe ref, (s.declared.get? c.ref).isSome = true)
    (htaken : ∀ shape, Shows describe ref shape → shape.kind = .enumeration →
      (s.registry.get? (keyOfName shape.title)).isSome = true)
    (hspelled : ∀ text u, ref = .name text → TypeName.parse text = .ok u →
      u.withoutSuffixes.isWritable = true ∧
        ∃ base, (s.declared.put ref h).get? (.name u.withoutSuffixes.format) = some base ∧
          s.registry.Wraps base u.wrapping h) :
    Consistent describe valid { s with declared := s.declared.put ref h } := by
  have hkeep : ∀ r x, s.declared.get? r = some x → (s.declared.put ref h).get? r = some x := by
    intro r x hx
    rw [Assoc.get?_put, if_neg, hx]
    rintro rfl
    rw [hnew] at hx
    cases hx
  have hsome : ∀ r, (s.declared.get? r).isSome = true →
      ((s.declared.put ref h).get? r).isSome = true := by
    intro r hr
    obtain ⟨x, hx⟩ := Option.isSome_iff_exists.mp hr
    exact Option.isSome_iff_exists.mpr ⟨x, hkeep r x hx⟩
  have hold : ∀ r x, (s.declared.put ref h).get? r = some x →
      r = ref ∧ x = h ∨ s.declared.get? r = some x := by
    intro r x hx
    rw [Assoc.get?_put] at hx
    split at hx
    · rename_i he
      exact .inl ⟨he.symm, (Option.some.inj hx).symm⟩
    · exact .inr hx
  refine ⟨hs.truthful, fun r x hx henum c hc => ?_, fun r x shape hx hshows hkind => ?_,
    fun text x u hx hu => ?_⟩
  · rcases hold r x hx with ⟨rfl, -⟩ | hx
    · exact hsome _ (hcalled henum c hc)
    · exact hsome _ (hs.called r x hx henum c hc)
  · rcases hold r x hx with ⟨rfl, -⟩ | hx
    · exact htaken shape hshows hkind
    · exact hs.taken r x shape hx hshows hkind
  · rcases hold _ x hx with ⟨he, rfl⟩ | hx
    · exact hspelled text u he.symm hu
    · obtain ⟨hwritable, base, hbase, hwraps⟩ := hs.spelled text x u hx hu
      exact ⟨hwritable, base, hkeep _ _ hbase, hwraps⟩

end Consistent

/-- A quiet edit declares nothing, opens nothing, and takes free keys only. -/
theorem Quiet.frame (h : Quiet task s s') : s'.declared = s.declared ∧
    s'.openAliases = s.openAliases ∧ s.registry.Widens s'.registry := by
  induction h with
  | refl => exact ⟨rfl, rfl, .refl _⟩
  | @tail t u _ hlast ih =>
    obtain ⟨hdeclared, hopen, hwidens⟩ := ih
    cases hlast with
    | polled | lost | answered => exact ⟨hdeclared, hopen, hwidens⟩
    | noted hbooks hregistry =>
      simp only [books, Prod.mk.injEq] at hbooks
      exact ⟨hbooks.2.2.1.trans hdeclared, hbooks.2.2.2.1.trans hopen, hregistry ▸ hwidens⟩
    | bound hbooks hfree hregistry =>
      simp only [books, Prod.mk.injEq] at hbooks
      exact ⟨hbooks.2.2.1.trans hdeclared, hbooks.2.2.2.1.trans hopen,
        hregistry ▸ hwidens.trans (Registry.widens_bind _ hfree _)⟩

/-- A quiet edit keeps the tables consistent, as far as they were. -/
theorem Quiet.consistent (hd : Describes task describe valid) (h : Quiet task s s')
    (hs : Consistent describe valid s) : Consistent describe valid s' :=
  hs.widen h.frame.1 h.frame.2.2 ((asking_truthful hd).quiet h hs.truthful)

/-! ## 4. Calls

The calls of one declaration, with what holds while they are under way. -/

/-- Right before a reference is remembered: it is not, but all that it asks for is. -/
structure Completed (describe : Description) (valid : σ → Prop) (ref : Ref) (s : State σ) :
    Prop where
  consistent : Consistent describe valid s
  unknown : s.declared.get? ref = none
  called : ¬ IsEnumeration describe ref →
    ∀ c ∈ calls describe ref, (s.declared.get? c.ref).isSome = true

/-- References are declared consistently, and each is remembered once. -/
def Remembering (describe : Description) (valid : σ → Prop) (declare : Ref → Run σ Handle) : Prop :=
  ∀ ref (s : State σ), WellFormed s → Consistent describe valid s →
    Opened describe s.openAliases ref →
    Ensures (declare ref) s
      (fun h s' => Consistent describe valid s' ∧
        (s.declared.get? ref = none →
          ∃ t : State σ, Completed describe valid ref t ∧ s'.declared = t.declared.put ref h) ∧
        ∀ x, s.declared.get? ref = some x → s' = s)
      fun _ s' => Consistent describe valid s'

/-- While a reference is declared: the tables agree, it is not remembered unless it is an
enumeration, and what is declared or open stays so. -/
structure Underway (describe : Description) (valid : σ → Prop) (ref : Ref) (s s' : State σ) :
    Prop where
  consistent : Consistent describe valid s'
  unknown : ¬ IsEnumeration describe ref → s'.declared.get? ref = none
  openAliases : s'.openAliases = s.openAliases
  declared : ∀ r h, s.declared.get? r = some h → s'.declared.get? r = some h

theorem Underway.trans {ref : Ref} (h : Underway describe valid ref s t)
    (h' : Underway describe valid ref t s') : Underway describe valid ref s s' :=
  ⟨h'.consistent, h'.unknown, h'.openAliases.trans h.openAliases,
    fun r x hx => h'.declared r x (h.declared r x hx)⟩

variable (hdeclare : Declares declare) (hremember : Remembering describe valid declare)
  (hd : Describes task describe valid)

section

include hdeclare hremember

/-- **A call does not remember its caller.** -/
theorem underway_call {ref : Ref} {c : Call} (hc : c ∈ calls describe ref) (hw : WellFormed s)
    (hs : Consistent describe valid s) (hopen : Opened describe s.openAliases ref)
    (hnew : ¬ IsEnumeration describe ref → s.declared.get? ref = none) :
    Ensures (c.run declare) s
      (fun h s' => Underway describe valid ref s s' ∧ s'.declared.get? c.ref = some h)
      fun _ s' => Consistent describe valid s' := by
  have hs' : Consistent describe valid (c.enter s) := ⟨hs.truthful, hs.called, hs.taken, hs.spelled⟩
  have hsteps := hdeclare (c.enter s) c.ref (hw.enter c)
  have hrun := hremember c.ref (c.enter s) (hw.enter c) hs' (hopen.call hc)
  refine ensures_call (Ensures.mono (hsteps.and hrun) ?_ ?_)
  · rintro h t ⟨⟨-, hg, -, hh⟩, ht, hfresh, hknown⟩
    refine ⟨⟨⟨ht.truthful, ht.called, ht.taken, ht.spelled⟩, fun henum => ?_, ?_, hg.declared⟩, hh⟩
    · show t.declared.get? ref = none
      cases hget : s.declared.get? c.ref with
      | some x =>
        rw [hknown x hget]
        exact hnew henum
      | none =>
        obtain ⟨u, hu, hput⟩ := hfresh hget
        rw [hput, Assoc.get?_put]
        split
        · -- the reference calls itself: then it was declared before it was remembered
          rename_i hself
          have hcalled := hu.called (hself ▸ henum) c (hself ▸ hc)
          rw [hu.unknown] at hcalled
          cases hcalled
        · cases hfound : u.declared.get? ref with
          | none => rfl
          | some x =>
            have hcalled := hu.consistent.called ref x hfound henum c hc
            rw [hu.unknown] at hcalled
            cases hcalled
    · show (c.leave t).openAliases = s.openAliases
      have haliases : t.openAliases = c.opens.toList ++ s.openAliases := hg.openAliases
      unfold Call.leave
      cases hopens : c.opens with
      | none => simpa [hopens] using haliases
      | some label => simp [haliases, hopens]
  · rintro e t ⟨-, ht⟩
    exact ⟨ht.truthful, ht.called, ht.taken, ht.spelled⟩

include hd

/-- All calls of a declaration, one after the other. -/
theorem underway_trace {ref : Ref} {cs : List Call} (hcs : ∀ c ∈ cs, c ∈ calls describe ref)
    (htrace : Trace task declare cs s s') (hs : Consistent describe valid s)
    (hopen : Opened describe s.openAliases ref)
    (hnew : ¬ IsEnumeration describe ref → s.declared.get? ref = none) :
    Underway describe valid ref s s' ∧ ∀ c ∈ cs, (s'.declared.get? c.ref).isSome = true := by
  have hquiet : ∀ {s t : State σ}, Quiet task s t → Consistent describe valid s →
      (¬ IsEnumeration describe ref → s.declared.get? ref = none) →
      Underway describe valid ref s t := fun hq hs hnew =>
    ⟨hq.consistent hd hs, hq.frame.1 ▸ hnew, hq.frame.2.1, fun _ _ hx => hq.frame.1 ▸ hx⟩
  induction htrace with
  | done hq => exact ⟨hquiet hq hs hnew, by simp⟩
  | @call s t u s' c rest h hq hw hrun _ ih =>
    have ht := hquiet hq hs hnew
    obtain ⟨hu, hdeclared⟩ := (underway_call hdeclare hremember (hcs c List.mem_cons_self) hw
      ht.consistent (ht.openAliases ▸ hopen) ht.unknown).of_ok hrun
    obtain ⟨hlast, hall⟩ := ih (fun c hc => hcs c (List.mem_cons_of_mem _ hc)) hu.consistent
      ((ht.trans hu).openAliases ▸ hopen) hu.unknown
    refine ⟨(ht.trans hu).trans hlast, fun x hx => ?_⟩
    rcases List.mem_cons.mp hx with rfl | hx
    · exact Option.isSome_iff_exists.mpr ⟨h, hlast.declared _ _ hdeclared⟩
    · exact hall x hx

/-- Calls of which the last one stopped. -/
theorem consistent_of_broken {ref : Ref} {cs : List Call} {e : Stop}
    (hcs : ∀ c ∈ cs, c ∈ calls describe ref)
    (hbroken : Broken task describe ref declare cs s e s') (hs : Consistent describe valid s)
    (hopen : Opened describe s.openAliases ref)
    (hnew : ¬ IsEnumeration describe ref → s.declared.get? ref = none) :
    Consistent describe valid s' := by
  induction hbroken with
  | here hq hq' => exact (hq.trans hq').consistent hd hs
  | call hq hw hrun =>
    exact (underway_call hdeclare hremember (hcs _ List.mem_cons_self) hw (hq.consistent hd hs)
      (hq.frame.2.1 ▸ hopen) (hq.frame.1 ▸ hnew)).of_error hrun
  | later hq hw hrun _ ih =>
    obtain ⟨hu, -⟩ := (underway_call hdeclare hremember (hcs _ List.mem_cons_self) hw
      (hq.consistent hd hs) (hq.frame.2.1 ▸ hopen) (hq.frame.1 ▸ hnew)).of_ok hrun
    exact ih (fun c hc => hcs c (List.mem_cons_of_mem _ hc)) hu.consistent
      (hu.openAliases ▸ hq.frame.2.1 ▸ hopen) hu.unknown

end

/-! ## 5. What was registered

What the steps of a declaration leave at their end, where it is needed: an enumeration under its
key, a name as its base with the suffixes around it. -/

/-- A key is registered if it was free. -/
theorem eq_of_register (hs : WellFormed s) {key : Key} {i : Instance} {h : Handle}
    (hrun : register task key i s = .ok h s') : s.registry.get? key = none ∧
      s'.declared = s.declared ∧ s'.registry.get? key = some h := by
  cases hfree : s.registry.get? key with
  | none =>
    rw [register_run hfree] at hrun
    cases hrun
    exact ⟨rfl, rfl, by rw [Registry.get?_bind, if_pos rfl]⟩
  | some holder =>
    have hne : holder ≠ s.graph.count := Nat.ne_of_lt (hs.lt_count_of_get? hfree)
    simp only [register, run_get_bind, Registry.register, hfree, if_neg hne] at hrun
    cases hrun

/-- Who asks for a key changes nothing. -/
theorem keyOf_eq_ok {h : Handle} {key : Key} (hrun : keyOf h s = .ok key s') :
    s' = s ∧ s.registry.keyOf? h = some key := by
  cases hk : s.registry.keyOf? h with
  | none =>
    simp only [keyOf, run_get_bind, hk] at hrun
    cases hrun
  | some k =>
    simp only [keyOf, run_get_bind, hk] at hrun
    cases hrun
    exact ⟨rfl, rfl⟩

/-- Nor does a check. -/
theorem needWritable_eq_ok {writable : Bool} {a : Unit}
    (hrun : (needWritable writable : Run σ Unit) s = .ok a s') : s' = s ∧ writable = true := by
  unfold needWritable at hrun
  split at hrun
  · rename_i hw
    cases hrun
    exact ⟨rfl, hw⟩
  · cases hrun

/-- A name is declared through its base, unless it is canonical. -/
theorem exists_base {text : String} {u : TypeName} {h : Handle}
    (hrun : declareName task declare text s = .ok h s') (hparse : TypeName.parse text = .ok u) :
    u.withoutSuffixes.isWritable = true ∧
      ((u.withoutSuffixes.format = text ∧ u.wrapping = []) ∨
        ∃ base t, declare (.name u.withoutSuffixes.format) s = .ok base t ∧
          applySuffixes task base u.wrapping t = .ok h s') := by
  have hbare (hnil : u.suffixes = []) : u.withoutSuffixes = u ∧ u.wrapping = [] := by
    cases u
    obtain rfl : _ = [] := hnil
    exact ⟨rfl, rfl⟩
  simp only [declareName, hparse] at hrun
  obtain ⟨_, s₁, hneed, hrest⟩ := bind_eq_ok hrun
  obtain ⟨rfl, hwritable⟩ := needWritable_eq_ok hneed
  refine ⟨hwritable, ?_⟩
  split at hrest
  · obtain ⟨base, t, hbase, hlast⟩ := bind_eq_ok hrest
    exact .inr ⟨base, t, hbase, hlast⟩
  · rename_i hsuffixes
    obtain ⟨hself, hwrapping⟩ := hbare (by simpa using hsuffixes)
    rw [hself, hwrapping]
    split at hrest
    · exact .inr ⟨h, s', hrest, rfl⟩
    · rename_i hformat
      exact .inl ⟨by simpa using hformat, rfl⟩

/-- A described reference is declared from its description. -/
theorem declareDescribed_of_declareNew {ref : Ref} {h : Handle} (hdescribed : IsDescribed ref)
    (hrun : declareNew task declare ref s = .ok h s') :
    declareDescribed task declare (labelOf ref) ref s = .ok h s' ∧ IsNormal ref := by
  cases ref with
  | id n => exact ⟨hrun, trivial⟩
  | name text =>
    obtain ⟨u, hparse, hsuffixes, hformat⟩ := hdescribed
    simp only [declareNew, declareName, hparse] at hrun
    obtain ⟨_, s₁, hneed, hrest⟩ := bind_eq_ok hrun
    obtain ⟨rfl, hwritable⟩ := needWritable_eq_ok hneed
    rw [if_neg (by simp [hsuffixes]), if_neg (by simp [hformat])] at hrest
    refine ⟨hrest, ?_⟩
    have hself : u.withoutSuffixes = u := by
      cases u
      obtain rfl : _ = [] := hsuffixes
      rfl
    rw [hself] at hwritable
    simp [IsNormal, TypeName.normalize, hparse, TypeName.written?, hwritable, hformat]

include hdeclare hd in
/-- An enumeration that is new is registered after its calls, under a key that is free. -/
theorem exists_registered {ref : Ref} {shape : Shape} {h : Handle} (ht : Truthful describe valid s)
    (hw : WellFormed s) (hshows : Shows describe ref shape) (hkind : shape.kind = .enumeration)
    (hfree : s.registry.get? (keyOfName shape.title) = none)
    (hrun : declareNew task declare ref s = .ok h s') :
    ∃ t, Trace task declare (calls describe ref) s t ∧ s'.declared = t.declared ∧
      t.registry.get? (keyOfName shape.title) = none ∧
      (s'.registry.get? (keyOfName shape.title)).isSome = true := by
  obtain ⟨hdescribed, hnormal⟩ := declareDescribed_of_declareNew hshows.described hrun
  obtain ⟨answer, s₁, hquery, hshape⟩ := bind_eq_ok hdescribed
  have hasked : Plays task describe ref declare s [] (query task ref) := plays_query hnormal
  have htrace₁ := hasked.of_ok hquery
  obtain ⟨hw₁, -, hknown⟩ := (steps_query task hw ref).of_ok hquery
  obtain rfl : answer = some shape := (eq_of_query hd ht hquery).trans hshows.eq
  have hname : nameOf shape s₁ = .ok shape.title s₁ :=
    nameOf_run (hd.titled _ _ hshows.eq) (by simp [hkind])
  simp only [declareShape, hkind, declareEnumeration] at hshape
  rw [run_bind_ok hname] at hshape
  obtain ⟨key, s₂, hkey, hunnamed⟩ := bind_eq_ok hshape
  obtain ⟨rfl, rfl⟩ := namedKey_eq_ok hkey
  simp only [run_get_bind, registry_of_query hquery, hfree] at hunnamed
  obtain ⟨underlying, s₃, htrace₃, hw₃, hmade⟩ : ∃ underlying s₃,
      Trace task declare (calls describe ref) s₂ s₃ ∧ WellFormed s₃ ∧ (do
        let members ← distinctMembers task shape.title [] shape.members
        register task (keyOfName shape.title) (.enumeration
          { name := (splitName shape.title).2, scope := (splitName shape.title).1, underlying,
            members })) s₃ = .ok h s' := by
    simp only [hshows.calls_eq, Shape.calls, hkind]
    cases hunderlying : shape.underlying with
    | none =>
      simp only [hunderlying] at hunnamed
      obtain ⟨x, s₃, hscalar, hmade⟩ := bind_eq_ok hunnamed
      have hplays : Plays task describe ref declare s₂ []
          (primitive task (defaultUnderlying shape.size)) := plays_primitive _
      have hneeded : Needed s₂ (defaultUnderlying shape.size) :=
        ⟨ref, shape, hknown, .underlying hkind hunderlying⟩
      exact ⟨x, s₃, hplays.of_ok hscalar, ((steps_primitive task hw₁ hneeded).of_ok hscalar).1,
        hmade⟩
    | some target =>
      simp only [hunderlying] at hunnamed
      obtain ⟨x, s₃, hcall, hmade⟩ := bind_eq_ok hunnamed
      have hplays : Plays task describe ref declare s₂ [.to target] (declare target) :=
        plays_call hw₁ (.to target)
      exact ⟨x, s₃, hplays.of_ok hcall, ((hdeclare s₂ target hw₁).of_ok hcall).1, hmade⟩
  obtain ⟨members, s₄, hmembers, hregister⟩ := bind_eq_ok hmade
  have hplayed : Plays task describe ref declare s₃ []
      (distinctMembers task shape.title [] shape.members) := plays_distinctMembers _ _ _ hw₃
  have hw₄ := ((steps_distinctMembers task _ _ _ hw₃).of_ok hmembers).1
  obtain ⟨hfree₄, hdeclared, hget⟩ := eq_of_register hw₄ hregister
  refine ⟨s₄, ?_, hdeclared, hfree₄, Option.isSome_iff_exists.mpr ⟨h, hget⟩⟩
  simpa using (htrace₁.append htrace₃).append (hplayed.of_ok hmembers)

/-! ## 6. References

One level of the recursion: from the calls of a reference to the reference itself. -/

section

include hdeclare hremember hd

/-- Right before a reference is remembered, whatever it is. -/
theorem completed_of_declareNew (hre : NoReentry describe) {ref : Ref} {h : Handle}
    (hw : WellFormed s) (hs : Consistent describe valid s)
    (hopen : Opened describe s.openAliases ref)
    (hnew : s.declared.get? ref = none) (hrun : declareNew task declare ref s = .ok h s') :
    Completed describe valid ref s' ∧ ∀ shape, Shows describe ref shape →
      shape.kind = .enumeration →
      (s'.registry.get? (keyOfName shape.title)).isSome = true := by
  obtain ⟨cs, hmade⟩ := exists_made describe s ref
  obtain ⟨u, htrace, hend⟩ :=
    (places_declareNew hdeclare hd hs.truthful hw hmade).of_ok hrun
  have hsame : s'.declared = u.declared ∧ s'.registry = u.registry ∧ s'.shapes = u.shapes ∧
      s'.session = u.session := by
    rcases hend with rfl | hwaits
    · exact ⟨rfl, rfl, rfl, rfl⟩
    · exact ⟨hwaits.declared, hwaits.registry, hwaits.shapes, hwaits.session⟩
  have hcs : ∀ c ∈ cs, c ∈ calls describe ref := by
    cases hmade with
    | all => exact fun c hc => hc
    | opened | known => exact fun c hc => by cases hc
  obtain ⟨hunder, hcalled⟩ := underway_trace hdeclare hremember hd hcs htrace hs hopen fun _ => hnew
  have hconsistent : Consistent describe valid s' := hunder.consistent.widen hsame.1
    (hsame.2.1 ▸ .refl _) ⟨hsame.2.2.2 ▸ hunder.consistent.truthful.1,
      fun r a ha => hunder.consistent.truthful.2 r a (hsame.2.2.1 ▸ ha)⟩
  by_cases henum : IsEnumeration describe ref
  · obtain ⟨shape, hshows, hkind⟩ := henum
    have honly : ∀ {other}, Shows describe ref other → other = shape := fun h =>
      Option.some.inj (h.eq.symm.trans hshows.eq)
    cases hget : s.registry.get? (keyOfName shape.title) with
    | some holder =>
      -- a key that is taken is found: nothing is called
      have hnil : cs = [] := by
        cases hmade with
        | all _ hfree =>
          rw [hfree shape hshows hkind] at hget
          cases hget
        | opened | known => rfl
      subst hnil
      obtain ⟨hq⟩ : Nonempty (Quiet task s u) := by
        cases htrace with
        | done hq => exact ⟨hq⟩
      refine ⟨⟨hconsistent, ?_, fun hnot => absurd ⟨shape, hshows, hkind⟩ hnot⟩, ?_⟩
      · rw [hsame.1, hq.frame.1, hnew]
      · intro other hother _
        obtain rfl := honly hother
        rw [hsame.2.1, hq.frame.2.2.get? _ _ hget]
        rfl
    | none =>
      obtain ⟨t, htrace, hdeclared, hfree, htaken⟩ :=
        exists_registered hdeclare hd hs.truthful hw hshows hkind hget hrun
      have ht := (underway_trace hdeclare hremember hd (fun _ hc => hc) htrace hs hopen
        fun _ => hnew).1
      refine ⟨⟨hconsistent, ?_, fun hnot => absurd ⟨shape, hshows, hkind⟩ hnot⟩, ?_⟩
      · -- had it been remembered meanwhile, its key would be taken
        rw [hdeclared]
        cases hfound : t.declared.get? ref with
        | none => rfl
        | some x =>
          have := ht.consistent.taken ref x shape hfound hshows hkind
          rw [hfree] at this
          cases this
      · intro other hother _
        rw [honly hother]
        exact htaken
  · refine ⟨⟨hconsistent, hsame.1 ▸ hunder.unknown henum, fun _ c hc => ?_⟩,
      fun shape hshows hkind => absurd ⟨shape, hshows, hkind⟩ henum⟩
    rw [hsame.1]
    refine hcalled c ?_
    cases hmade with
    | all => exact hc
    | opened hshows hkind hmem =>
      exact absurd hmem (hopen.label_not_mem hre hshows hkind)
    | known hshows hkind => exact absurd ⟨_, hshows, hkind⟩ henum

/-- A reference that is known is answered from the table. Another one is declared by its calls,
and entered when all of them are remembered. -/
theorem remembering_declareOnce (hre : NoReentry describe) :
    Remembering describe valid (declareOnce task declare) := by
  intro ref s hw hs hopen
  unfold declareOnce Ensures
  cases hget : s.declared.get? ref with
  | some h =>
    simp only [run_get_bind, hget]
    exact ⟨hs, fun h => (by cases h), fun _ _ => rfl⟩
  | none =>
    simp only [run_get_bind, hget]
    cases hr : declareNew task declare ref s with
    | error e t =>
      rw [run_bind_error hr]
      obtain ⟨cs, hmade⟩ := exists_made describe s ref
      have hcs : ∀ c ∈ cs, c ∈ calls describe ref := by
        cases hmade with
        | all => exact fun c hc => hc
        | opened | known => exact fun c hc => by cases hc
      exact consistent_of_broken hdeclare hremember hd hcs
        ((places_declareNew hdeclare hd hs.truthful hw hmade).of_error hr) hs hopen fun _ => hget
    | ok h t =>
      rw [run_bind_ok hr]
      obtain ⟨hcompleted, htaken⟩ :=
        completed_of_declareNew hdeclare hremember hd hre hw hs hopen hget hr
      refine ⟨hcompleted.consistent.put hcompleted.unknown hcompleted.called htaken ?_,
        fun _ => ⟨t, hcompleted, rfl⟩, fun _ h => by cases h⟩
      rintro text u rfl hparse
      obtain ⟨hwritable, hbase⟩ := exists_base hr hparse
      refine ⟨hwritable, ?_⟩
      rcases hbase with ⟨hself, hwrapping⟩ | ⟨base, v, hbase, happly⟩
      · refine ⟨h, ?_, ?_⟩
        · rw [Assoc.get?_put, if_pos (by rw [hself])]
        · rw [hwrapping]
          rfl
      · obtain ⟨hwv, -, hin, hdeclared⟩ := (hdeclare s _ hw).of_ok hbase
        obtain ⟨-, hgt, -, hwraps⟩ := (steps_applySuffixes task u.wrapping hwv hin).of_ok happly
        have hkept := hgt.declared _ _ hdeclared
        refine ⟨base, ?_, hwraps⟩
        rw [Assoc.get?_put, if_neg, hkept]
        -- the base is remembered, the name is not
        intro hself
        rw [← hself, hcompleted.unknown] at hkept
        cases hkept

end

include hd in
/-- **Declaring is consistent**, however deeply references are followed. -/
theorem remembering_declare (hre : NoReentry describe) (n : Nat) :
    Remembering describe valid (NativeTypes.Resolver.declare task n) := by
  induction n with
  | zero => exact fun _ _ _ hs _ => hs
  | succ n ih => exact remembering_declareOnce (declares_declare task n) ih hd hre

/-! ## 7. Requests -/

include hd in
/-- **The tables agree after any number of requests**, whether they returned or stopped. -/
theorem Attempted.consistent (hre : NoReentry describe) (h : Attempted task valid s) :
    Consistent describe valid s ∧ s.openAliases = [] := by
  obtain ⟨session, hvalid, hs⟩ := h
  refine requests_keep (I := fun t => Consistent describe valid t ∧ t.openAliases = []) ?_ ?_ hs
    (settled_start task.module session).toWellFormed ⟨.start hvalid, rfl⟩
  · rintro n ref t hw ⟨ht, hopen⟩
    have hnothing : Opened describe t.openAliases ref := by
      rw [hopen]
      exact fun _ hmem => by cases hmem
    refine Ensures.mono ((declares_declare task n t ref hw).and
      (remembering_declare hd hre n ref t hw ht hnothing)) ?_ ?_
    · rintro _ u ⟨⟨-, hg, -⟩, hu, -⟩
      exact ⟨hu, hg.openAliases.trans hopen⟩
    · rintro _ u ⟨⟨-, hg, -⟩, hu⟩
      exact ⟨hu, hg.openAliases.trans hopen⟩
  · rintro t t' hknown ⟨ht, hopen⟩
    obtain ⟨hget, hkey⟩ := keys_of_known hknown
    simp only [known, Prod.mk.injEq] at hknown
    obtain ⟨hsession, hshapes, hdeclared, -, -, haliases, -⟩ := hknown
    exact ⟨ht.widen hdeclared ⟨fun key x hx => (hget key).trans hx, fun x key hk =>
      (hkey x).trans hk⟩
      ⟨hsession ▸ ht.truthful.1, fun r a ha => ht.truthful.2 r a (hshapes ▸ ha)⟩,
      haliases.trans hopen⟩

/-- What a reference stands for it stands for ever after. -/
theorem Requests.declared (h : Requests task s s') (hw : WellFormed s) {ref : Ref} {x : Handle}
    (hx : s.declared.get? ref = some x) : s'.declared.get? ref = some x := by
  refine requests_keep (I := fun t => t.declared.get? ref = some x) ?_ ?_ h hw hx
  · intro n r t hw ht
    exact Ensures.mono (declares_declare task n t r hw)
      (fun _ u ⟨_, hg, _⟩ => hg.declared ref x ht) fun _ u ⟨_, hg, _⟩ => hg.declared ref x ht
  · intro t t' hknown ht
    simp only [known, Prod.mk.injEq] at hknown
    rw [hknown.2.2.1]
    exact ht

/-- No key is bound again, and no instance changes its primary key. -/
theorem Requests.widens (h : Requests task s s') (hw : WellFormed s) :
    s.registry.Widens s'.registry :=
  Registry.widens_of_prefix hw.coherent (h.wellFormed hw).1.coherent (h.wellFormed hw).2.keys

end NativeTypes.Resolver
