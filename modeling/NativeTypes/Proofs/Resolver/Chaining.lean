/-
NativeTypes.Proofs.Resolver.Chaining — declaring keeps what is known of a chain
of typedefs.

A typedef is open while its target is declared. So if one is open that leads to
the end, all between it and the reference was passed and is not declared yet,
unless the chain was left at its end (`Approached`). A typedef that is met
again while it is open therefore closes a ring on which nothing is declared
(`Chained.blank_of_round`): what closes it is the only placeholder that the
ring gets.

The cases are those of a reference that was not declared before: it is no type
name, it stands for nothing else, it is spelled differently, it is a typedef
that is open or one that is not. What each of them puts into the table keeps
`Chained`, and so does every declaration (`declaresChained_declare`).

The end `a` is fixed for the whole module, and a reference need not lead to it.
One that does may be declared on behalf of one that does not: what a function
type or a template asks for can be any reference. Then the chain may be
declared in the middle of the declaration, and nothing can be said about which
parts of it were known before. What can be excluded is that this happens on the
way along the chain itself: from behind its end nothing leads back to it
(`Beyond`), so while an end is declared the chain stays as it was.

A reference on the chain is remembered on the way back, after everything behind
it. So while it is declared the induction must say of the next one not only
that it is chained, but that nothing of the chain was declared if it does not
come near it (`Onward`).
-/
import NativeTypes.Proofs.Resolver.Chained

namespace NativeTypes.Resolver

variable {σ : Type} {task : Task σ} {describe : Description} {valid : σ → Prop}
  {module : String} {a ref r x y : Ref} {s s' t : State σ} {h : Handle} {opens : List String}
  {text : String} {shape : Shape} {declare : Ref → Run σ Handle}

/-! ## 1. The way to a reference -/

/-- The chain goes on from the first reference, which is not declared. -/
structure Passing (describe : Description) (declared : Assoc Ref Handle) (x y : Ref) : Prop where
  standsFor : StandsFor describe x y
  undeclared : declared.get? x = none

/-- Nothing that the reference asks for leads there. -/
def Beyond (describe : Description) (a ref : Ref) : Prop :=
  ∀ x, LeadsTo describe x a → ¬Relation.ReflTransGen (AsksFor describe) ref x

/-- An open typedef that leads there was passed on the way to the reference, or the chain was left
since. -/
def Approached (describe : Description) (a : Ref) (s : State σ) (ref : Ref) : Prop :=
  ∀ r, LeadsTo describe r a → IsTypedef describe r → labelOf r ∈ s.openAliases →
    LeadsTo describe ref a ∧ Relation.TransGen (Passing describe s.declared) r ref ∨
      Beyond describe a ref

/-- If a typedef is open that leads there, the chain was left since. -/
def Cleared (describe : Description) (a : Ref) (opens : List String) (ref : Ref) : Prop :=
  ∀ r, LeadsTo describe r a → IsTypedef describe r → labelOf r ∈ opens → Beyond describe a ref

/-- Nothing is open. -/
theorem Approached.of_nil (hopen : s.openAliases = []) : Approached describe a s ref := by
  intro r _ _ hmem
  rw [hopen] at hmem
  cases hmem

/-- What was left is not in the way. -/
theorem Cleared.approached (h : Cleared describe a s.openAliases ref) :
    Approached describe a s ref :=
  fun r hr htypedef hmem => .inr (h r hr htypedef hmem)

/-- The condition is about what is declared and open only. -/
theorem Approached.congr (h : Approached describe a s ref) (hdeclared : s'.declared = s.declared)
    (hopen : s'.openAliases = s.openAliases) : Approached describe a s' ref := by
  unfold Approached
  rw [hdeclared, hopen]
  exact h

/-- What is asked for from beyond is beyond. -/
theorem Beyond.next (h : Beyond describe a ref) (hasks : AsksFor describe ref x) :
    Beyond describe a x :=
  fun y hy hpath => h y hy (hpath.head hasks)

/-- And does not lead there. -/
theorem Beyond.not_leadsTo (h : Beyond describe a ref) : ¬LeadsTo describe ref a :=
  fun hlead => h ref hlead .refl

/-- An end that stands for itself is left by everything that it asks for. -/
theorem IsEnd.beyond (hend : IsEnd describe a) (hfinal : IsFinal describe a)
    (hasks : AsksFor describe a x) : Beyond describe a x := by
  intro y hy hpath
  cases hend with
  | final _ hnot => exact hnot (.head' hasks (hpath.trans hy.reaches))
  | ring hring => exact hfinal.not_typedef hring.typedef

/-- What stands for itself and leads there is the end. -/
theorem IsFinal.eq_of_leadsTo (hfinal : IsFinal describe ref) (h : LeadsTo describe ref a) :
    ref = a :=
  (hfinal.eq h).symm

/-- What a reference that stands for itself asks for is not on the chain. -/
theorem IsFinal.beyond (hfinal : IsFinal describe ref) (hend : IsEnd describe a)
    (h : LeadsTo describe ref a ∨ Beyond describe a ref) (hasks : AsksFor describe ref x) :
    Beyond describe a x := by
  rcases h with hlead | hbeyond
  · obtain rfl := hfinal.eq_of_leadsTo hlead
    exact hend.beyond hfinal hasks
  · exact hbeyond.next hasks

/-- A reference that stands for itself leaves the chain. -/
theorem Approached.cleared (h : Approached describe a s ref) (hend : IsEnd describe a)
    (hfinal : IsFinal describe ref) (hasks : AsksFor describe ref x) :
    Cleared describe a s.openAliases x :=
  fun r hr htypedef hmem =>
    hfinal.beyond hend ((h r hr htypedef hmem).imp_left And.left) hasks

/-- The next reference is approached from this one. -/
theorem Approached.next (h : Approached describe a s ref) (hend : IsEnd describe a)
    (hstep : StandsFor describe ref x) (hnew : s.declared.get? ref = none) {c : Call}
    (hc : c ∈ calls describe ref) : Approached describe a (c.enter s) x := by
  have hlast : Passing describe s.declared ref x := ⟨hstep, hnew⟩
  have hfrom (hlead : LeadsTo describe ref a) : LeadsTo describe x a := hlead.next hend hstep
  intro r hr htypedef hmem
  rcases List.mem_append.mp hmem with hnewly | hbefore
  · obtain ⟨shape, hshows, -, hlabel⟩ := shows_of_opens hc (Option.mem_toList.mp hnewly)
    obtain ⟨_, _, hother, -⟩ := htypedef
    obtain rfl := eq_of_labelOf_eq hshows.described hother.described hlabel
    exact .inl ⟨hfrom hr, .single hlast⟩
  · rcases h r hr htypedef hbefore with ⟨hlead, hpath⟩ | hbeyond
    · exact .inl ⟨hfrom hlead, hpath.tail hlast⟩
    · exact .inr (hbeyond.next (hstep.asksFor_iff.mpr rfl))

/-- A round goes through all that it leads to. -/
theorem round_of_leadsTo {R : Ref → Ref → Prop} (hR : ∀ x y, R x y → StandsFor describe x y)
    (hround : Relation.TransGen R r r) (h : LeadsTo describe r y) : Relation.TransGen R y y := by
  induction h with
  | refl => exact hround
  | tail _ hstep ih =>
    obtain ⟨b, hb, hrest⟩ := Relation.TransGen.head'_iff.mp ih
    obtain rfl := (hR _ _ hb).unique hstep
    exact .tail' hrest hb

/-- **Nothing is declared of a ring that was passed.** -/
theorem Chained.blank_of_round {met : String → Prop}
    (hs : Chained describe valid module a met s) (hr : LeadsTo describe r a)
    (hround : Relation.TransGen (Passing describe s.declared) r r) :
    Blank describe a s.declared := by
  intro x hx
  cases hget : s.declared.get? x with
  | none => rfl
  | some h =>
    obtain ⟨c, h', hc, hdeclared⟩ := hs.exists_declared hx hget
    have hpassed := round_of_leadsTo (fun _ _ hp => hp.standsFor) hround (hr.trans hc)
    obtain ⟨b, hb, -⟩ := Relation.TransGen.head'_iff.mp hpassed
    cases hb.undeclared.symm.trans hdeclared

/-- Nothing is declared of a chain whose last type is not. -/
theorem Chained.blank_of_final {met : String → Prop}
    (hs : Chained describe valid module a met s) (hfinal : IsFinal describe a)
    (ha : s.declared.get? a = none) : Blank describe a s.declared := by
  intro x hx
  cases hget : s.declared.get? x with
  | none => rfl
  | some h =>
    obtain ⟨c, h', hc, hdeclared⟩ := hs.exists_declared hx hget
    obtain rfl := hfinal.eq hc
    cases ha.symm.trans hdeclared

/-! ## 2. What a reference leaves -/

/-- What holds after a reference was declared: the chain is as it was said, and nothing of it was
declared if the reference does not come near it. -/
structure Onward (describe : Description) (valid : σ → Prop) (module : String) (a ref : Ref)
    (s s' : State σ) : Prop where
  chained : Chained describe valid module a (Met s') s'
  blank : Beyond describe a ref → Blank describe a s.declared → Blank describe a s'.declared
  /-- Nothing is defined on the way into a ring. -/
  worklist : IsRing describe a → LeadsTo describe ref a → s'.worklist = s.worklist

/-- Nothing is declared. -/
theorem Onward.refl (hs : Chained describe valid module a (Met s) s) :
    Onward describe valid module a ref s s :=
  ⟨hs, fun _ hblank => hblank, fun _ _ => rfl⟩

/-- A text that was met stays so. -/
theorem Met.put (hmet : Met s text) (ref : Ref) (h : Handle) :
    Met { s with declared := s.declared.put ref h } text := by
  show ((s.declared.put ref h).get? _).isSome = true
  rw [Assoc.get?_put]
  split
  · rfl
  · exact hmet

/-- What leads elsewhere is not on the chain. -/
theorem Blank.put (hblank : Blank describe a s.declared) (hnot : ¬LeadsTo describe ref a) :
    Blank describe a (s.declared.put ref h) := by
  intro x hx
  rw [Assoc.get?_put, if_neg]
  · exact hblank x hx
  · rintro rfl
    exact hnot hx

/-- A reference that leads elsewhere is remembered at once. -/
theorem Onward.put (hs : Onward describe valid module a ref s t)
    (hlead : LeadsTo describe ref a →
      Chained describe valid module a (Met t) { t with declared := t.declared.put ref h }) :
    Onward describe valid module a ref s { t with declared := t.declared.put ref h } where
  chained := by
    by_cases href : LeadsTo describe ref a
    · exact (hlead href).mono fun _ hmet => hmet.put ref h
    · exact (hs.chained.put_other href).mono fun _ hmet => hmet.put ref h
  blank := fun hbeyond hblank => (hs.blank hbeyond hblank).put hbeyond.not_leadsTo
  worklist := hs.worklist

/-- How references are declared: what is known of the chain is kept. -/
def DeclaresChained (describe : Description) (valid : σ → Prop) (module : String) (a : Ref)
    (declare : Ref → Run σ Handle) : Prop :=
  ∀ ref s, WellFormed s → Chained describe valid module a (Met s) s → Approached describe a s ref →
    Ensures (declare ref) s (fun _ s' => Onward describe valid module a ref s s')
      fun _ s' => Onward describe valid module a ref s s'

/-- A reference is declared and is to be remembered. -/
def Extends (describe : Description) (valid : σ → Prop) (module : String) (a ref : Ref)
    (s : State σ) (run : Run σ Handle) : Prop :=
  Ensures run s
    (fun h t => Onward describe valid module a ref s { t with declared := t.declared.put ref h })
    fun _ t => Onward describe valid module a ref s t

/-- What is known of the chain, and something about what is declared and open. -/
def Along (describe : Description) (valid : σ → Prop) (module : String) (a : Ref)
    (P : Assoc Ref Handle → List String → Prop) (s : State σ) : Prop :=
  Chained describe valid module a (Met s) s ∧ P s.declared s.openAliases

theorem lasting_along (describe : Description) (valid : σ → Prop) (module : String) (a : Ref)
    (P : Assoc Ref Handle → List String → Prop) :
    Lasting describe valid (Along describe valid module a P) where
  truthful := fun hs => hs.1.truthful
  claim := fun {s s'} hw hc hs => by
    have hmet : Met s' = Met s := by
      funext text
      rw [Met, Met, hc.declared]
    refine ⟨hmet ▸ hs.1.claim hw hc, ?_⟩
    rw [hc.declared, hc.openAliases]
    exact hs.2

/-! ## 3. References that stand for themselves -/

/-- The end is remembered, if nothing of the chain is yet. -/
theorem Chained.put_final {met : String → Prop} (hs : Chained describe valid module a met s)
    (hfinal : IsFinal describe a) (hblank : Blank describe a s.declared) :
    Chained describe valid module a met { s with declared := s.declared.put a h } := by
  refine .put_first hs.truthful .refl .refl hblank (fun text k hchain hk => ?_)
    (fun text _ htypedef => ?_) fun hring => ?_
  · refine (hs.keys text k hchain hk).imp_right ?_
    rintro ⟨x, hx, hdeclared⟩
    cases (hblank x hx).symm.trans hdeclared
  · exact absurd htypedef hfinal.not_typedef
  · exact absurd hring.typedef hfinal.not_typedef

/-- What is no type name stands for itself. -/
theorem isFinal_of_refused {e : NameSyntaxError} (hparse : TypeName.parse text = .error e) :
    IsFinal describe (.name text) := by
  intro x hx
  cases hx with
  | typedef hshows =>
    obtain ⟨t, ht, -⟩ := hshows.described
    cases hparse.symm.trans ht
  | spelled ht =>
    cases hparse.symm.trans ht

/-- A text that is no type name. -/
theorem extends_refused {e : NameSyntaxError} (hparse : TypeName.parse text = .error e)
    (hs : Chained describe valid task.module a (Met s) s) (hw : WellFormed s)
    (hnew : s.declared.get? (.name text) = none) :
    Extends describe valid task.module a (.name text) s
      (declareNew task declare (.name text)) := by
  have hfinal : IsFinal describe (.name text) := isFinal_of_refused hparse
  have hrun : declareNew task declare (.name text) s =
      undefined task (String.ofList (Text.trim text.toList)) e.message s := by
    simp only [declareNew, declareName, hparse]
  obtain ⟨h, t, hok⟩ : ∃ h t,
      undefined task (String.ofList (Text.trim text.toList)) e.message s = .ok h t := by
    rcases undefined_run task (String.ofList (Text.trim text.toList)) e.message s with
      ⟨h, -, hok⟩ | ⟨-, hok⟩
    · exact ⟨h, s, hok⟩
    · exact ⟨_, _, hok⟩
  -- the placeholder is claimed by the text, which is remembered with it
  have hclaimed : Claimed describe valid (fun other => Met s other ∨ other = text) s
      (undefined task (String.ofList (Text.trim text.toList)) e.message) :=
    claimed_undefined hw _ (.refused (.inr rfl) hparse)
  have hc := hclaimed.of_ok hok
  have ht := (hs.mono fun _ => Or.inl).claim hw hc
  have hput : Chained describe valid task.module a (fun other => Met s other ∨ other = text)
      { t with declared := t.declared.put (.name text) h } := by
    by_cases hlead : LeadsTo describe (.name text) a
    · obtain rfl := hfinal.eq_of_leadsTo hlead
      exact ht.put_final hfinal (hc.declared ▸ hs.blank_of_final hfinal hnew)
    · exact ht.put_other hlead
  unfold Extends Ensures
  rw [hrun, hok]
  refine ⟨hput.mono fun other hmet => ?_, fun hbeyond hblank => ?_, fun hring hlead => ?_⟩
  · rcases hmet with hmet | rfl
    · have hmet : Met t other := by
        rw [Met, hc.declared]
        exact hmet
      exact hmet.put _ h
    · show ((t.declared.put _ h).get? _).isSome = true
      rw [Assoc.get?_put, if_pos rfl]
      rfl
  · show Blank describe a (t.declared.put _ h)
    rw [hc.declared]
    exact hblank.put hbeyond.not_leadsTo
  · obtain rfl := hfinal.eq_of_leadsTo hlead
    exact absurd hring.typedef hfinal.not_typedef

section

variable (hend : IsEnd describe a) (hdeclare : Declares declare)
  (hchained : DeclaresChained describe valid task.module a declare)

include hend hdeclare hchained

/-- A type name that stands for itself. -/
theorem extends_final (hd : Describes task describe valid) (hplain : PlainTypedefs describe)
    (hfinal : IsFinal describe ref)
    (hread : ∀ text, ref = .name text → ∃ t, TypeName.parse text = .ok t)
    (hs : Chained describe valid task.module a (Met s) s) (hw : WellFormed s)
    (hnew : s.declared.get? ref = none) (happroached : Approached describe a s ref) :
    Extends describe valid task.module a ref s (declareNew task declare ref) := by
  have hkind : ∀ shape, Shows describe ref shape → shape.kind ≠ .typedef := by
    intro shape hshows hkind
    obtain ⟨text, _, _, htarget, -⟩ := hplain.target ref shape hshows hkind
    exact hfinal _ (.typedef hshows hkind htarget)
  let P := fun (declared : Assoc Ref Handle) (opens : List String) => opens = s.openAliases ∧
    (LeadsTo describe ref a ∨ Beyond describe a ref → Blank describe a s.declared →
      Blank describe a declared)
  have hcalls : ∀ c ∈ calls describe ref,
      LastsCall (Along describe valid task.module a P) declare c := by
    rintro ⟨opened, target⟩ hc u hu ⟨hchain, hopen, hblank⟩
    cases opened with
    | some label =>
      obtain ⟨shape, hshows, htypedef, -⟩ := shows_of_opens hc rfl
      exact absurd htypedef (hkind shape hshows)
    | none =>
      have hasks : AsksFor describe ref target := ⟨_, hc, rfl⟩
      have hcleared := happroached.cleared hend hfinal hasks
      rw [← hopen] at hcleared
      have hgoes {t : State σ} (hg : Grows u t)
          (ho : Onward describe valid task.module a target u t) :
          Along describe valid task.module a P t :=
        ⟨ho.chained, hg.openAliases.trans hopen, fun hnear hbefore =>
          ho.blank (hfinal.beyond hend hnear hasks) (hblank hnear hbefore)⟩
      exact Ensures.mono ((hdeclare u target hu).and
        (hchained target u hu hchain hcleared.approached))
        (fun _ _ ⟨⟨_, hg, _⟩, ho⟩ => hgoes hg ho) fun _ _ ⟨⟨_, hg, _⟩, ho⟩ => hgoes hg ho
  have hgoes {t : State σ} (ht : Along describe valid task.module a P t) :
      Onward describe valid task.module a ref s t := by
    refine ⟨ht.1, fun hbeyond => ht.2.2 (.inr hbeyond), fun hring hlead => ?_⟩
    obtain rfl := hfinal.eq_of_leadsTo hlead
    exact absurd hring.typedef hfinal.not_typedef
  refine Ensures.mono (lasts_declareNew (lasting_along describe valid task.module a P) hd hdeclare
    hcalls hkind hread ⟨hs, rfl, fun _ hblank => hblank⟩ hw) (fun h t ht => ?_)
    fun e t ht => hgoes ht
  refine (hgoes ht).put fun hlead => ?_
  obtain rfl := hfinal.eq_of_leadsTo hlead
  exact ht.1.put_final hfinal (ht.2.2 (.inl .refl) (hs.blank_of_final hfinal hnew))

/-! ## 4. References that stand for others -/

/-- The next reference is declared. -/
theorem ensures_next {c : Call} (hc : c ∈ calls describe ref) (hstep : StandsFor describe ref c.ref)
    (hs : Chained describe valid task.module a (Met s) s) (hw : WellFormed s)
    (hnew : s.declared.get? ref = none) (happroached : Approached describe a s ref) :
    Ensures (c.run declare) s
      (fun h t => (WellFormed t ∧ InGraph h t ∧ t.declared.get? c.ref = some h) ∧
        Onward describe valid task.module a ref s t)
      fun _ t => Onward describe valid task.module a ref s t := by
  have hentered : Chained describe valid task.module a (Met (c.enter s)) (c.enter s) :=
    hs.of_eq hs.truthful rfl rfl rfl rfl
  have hgoes {t : State σ} (ho : Onward describe valid task.module a c.ref (c.enter s) t) :
      Onward describe valid task.module a ref s (c.leave t) :=
    ⟨ho.chained.of_eq ho.chained.truthful rfl rfl rfl rfl, fun hbeyond hblank =>
      ho.blank (hbeyond.next ⟨c, hc, rfl⟩) hblank, fun hring hlead =>
      ho.worklist hring (hlead.next hend hstep)⟩
  refine ensures_call (Ensures.mono ((hdeclare (c.enter s) c.ref (hw.enter c)).and
    (hchained c.ref (c.enter s) (hw.enter c) hentered
      (happroached.next hend hstep hnew hc))) ?_ fun _ _ he => hgoes he.2)
  rintro x t ⟨⟨hwt, -, hx, hdeclared⟩, ho⟩
  exact ⟨⟨⟨⟨hwt.coherent, hwt.registered, hwt.parts, hwt.below, hwt.keyBuilt, hwt.declared⟩,
    hwt.placed⟩, hx, hdeclared⟩, hgoes ho⟩

/-- A name that is not canonical. -/
theorem extends_spelled {u : TypeName} (hparse : TypeName.parse text = .ok u)
    (hsuffixes : u.suffixes = []) (hformat : u.format ≠ text)
    (hs : Chained describe valid task.module a (Met s) s) (hw : WellFormed s)
    (hnew : s.declared.get? (.name text) = none)
    (happroached : Approached describe a s (.name text)) :
    Extends describe valid task.module a (.name text) s
      (declareNew task declare (.name text)) := by
  have hstep : StandsFor describe (.name text) (.name u.format) :=
    .spelled hparse hsuffixes hformat
  have hc : Call.to (.name u.format) ∈ calls describe (.name text) := by
    simp [calls, hparse, hsuffixes, hformat]
  have hnext := ensures_next hend hdeclare hchained hc hstep hs hw hnew happroached
  have hrun : declareNew task declare (.name text) = (do
      needWritable u.withoutSuffixes.isWritable
      declare (.name u.format)) := by
    simp [declareNew, declareName, hparse, hsuffixes, hformat]
  rw [hrun]
  cases hwritable : u.withoutSuffixes.isWritable with
  | false => exact .refl hs
  | true =>
    refine Ensures.mono hnext ?_ fun _ _ he => he
    rintro h t ⟨⟨-, -, hdeclared⟩, ho⟩
    refine ho.put fun hlead => ho.chained.put_next hstep (hlead.next hend hstep) hdeclared ?_
    rintro other ⟨⟩ ⟨shape, _, hshows, -⟩
    obtain ⟨v, hv, -, hself⟩ := hshows.described
    cases hparse.symm.trans hv
    exact absurd hself hformat

/-- A typedef that is not open stands for its target, which takes its name if it is free. -/
theorem extends_alias (hplain : PlainTypedefs describe) (hshows : Shows describe ref shape)
    (hkind : shape.kind = .typedef)
    (htarget : shape.target = some x) (hclosed : labelOf ref ∉ s.openAliases)
    (hs : Chained describe valid task.module a (Met s) s) (hw : WellFormed s)
    (hnew : s.declared.get? ref = none) (happroached : Approached describe a s ref) :
    Extends describe valid task.module a ref s
      (declareAlias task declare (labelOf ref) shape) := by
  have hstep : StandsFor describe ref x := .typedef hshows hkind htarget
  have hc : (⟨some (labelOf ref), x⟩ : Call) ∈ calls describe ref := by
    simp [hshows.calls_eq, Shape.calls, hkind, htarget]
  unfold Extends declareAlias
  simp only [htarget]
  unfold Ensures
  simp only [run_get_bind, List.contains_iff_mem, if_neg hclosed]
  refine ensures_bind (ensures_next hend hdeclare hchained hc hstep hs hw hnew happroached) ?_
  rintro h t ⟨⟨hwt, hh, hdeclared⟩, ho⟩
  have hput {u : State σ} (hdeclared : u.declared.get? x = some h)
      (ho : Onward describe valid task.module a ref s u)
      (htaken : ∀ text, ref = .name text → (u.registry.get? (.named text)).isSome = true) :
      Onward describe valid task.module a ref s { u with declared := u.declared.put ref h } :=
    ho.put fun hlead => ho.chained.put_next hstep (hlead.next hend hstep) hdeclared
      fun text heq _ => htaken text heq
  have hown {text : String} (heq : ref = .name text) :
      shape.name.isEmpty = false ∧ keyOfName shape.name = .named text :=
    hplain.own text shape (heq ▸ hshows) hkind
  cases hname : shape.name.isEmpty with
  | true =>
    simp only [Bool.not_true]
    exact hput hdeclared ho fun text heq => by simp [(hown heq).1] at hname
  | false =>
    simp only [Bool.not_false, if_true]
    refine ensures_bind (Ensures.mono (ensures_namedKey shape.name t) (fun _ _ hk => hk) ?_) ?_
    · rintro e _ ⟨rfl, -⟩
      exact ho
    rintro _ _ ⟨rfl, rfl⟩
    unfold Ensures
    rcases addAlias_run task hwt hh (keyOfName shape.name) with ⟨htaken, hrun⟩ | ⟨hfree, hrun⟩
    · rw [run_bind_ok hrun]
      exact hput hdeclared ho fun text heq => (hown heq).2 ▸ htaken
    · rw [run_bind_ok hrun]
      -- what leads to the end by this name leads to it by the target
      have hon : ∀ text, OnChain describe a text → keyOfName shape.name = .named text →
          LeadsTo describe x a := fun text hchain hkey =>
        hchain.leads.next hend (hplain.standsFor_of_key hshows hkind htarget hkey hchain.typedef)
      refine hput hdeclared ⟨ho.chained.name hfree fun text hchain hkey =>
        ⟨x, hon text hchain hkey, hdeclared⟩, ho.blank, ho.worklist⟩ fun text heq => ?_
      show ((Registry.bind _ _ h).get? _).isSome = true
      rw [(hown heq).2, Registry.get?_bind, if_pos rfl]
      rfl

end

/-! ## 5. Rings -/

/-- An open typedef is met again that leads elsewhere. -/
theorem extends_closing_other (hend : IsEnd describe a) (hshows : Shows describe ref shape)
    (hnot : ¬LeadsTo describe ref a) (reason : String)
    (hs : Chained describe valid task.module a (Met s) s) (hw : WellFormed s) :
    Extends describe valid task.module a ref s (undefined task (labelOf ref) reason) := by
  have hoff : ¬OnChain describe a (labelOf ref) := by
    rintro ⟨hlead, shape', target, hshows', -⟩
    exact hnot (eq_of_labelOf_eq hshows'.described hshows.described rfl ▸ hlead)
  unfold Extends Ensures
  rcases undefined_run task (labelOf ref) reason s with ⟨h, -, hrun⟩ | ⟨hfree, hrun⟩
  · rw [hrun]
    exact (Onward.refl hs).put fun hlead => absurd hlead hnot
  · rw [hrun]
    exact Onward.put ⟨hs.undefined_other hw hend hoff hfree _ rfl, fun _ hblank => hblank,
      fun _ _ => rfl⟩ fun hlead => absurd hlead hnot

/-- **An open typedef that is met again closes a ring.** What it is declared as is new and
reported, unless something has its name. -/
theorem extends_closing (hplain : PlainTypedefs describe) (htypedef : IsTypedef describe ref)
    (hlead : LeadsTo describe ref a) (hopen : labelOf ref ∈ s.openAliases)
    (hs : Chained describe valid task.module a (Met s) s)
    (happroached : Approached describe a s ref) :
    Extends describe valid task.module a ref s
      (undefined task (labelOf ref) "typedef chain refers to itself") := by
  have hnear : ¬Beyond describe a ref := fun hbeyond => hbeyond.not_leadsTo hlead
  obtain ⟨-, hpassed⟩ := (happroached ref hlead htypedef hopen).resolve_right hnear
  have hblank := hs.blank_of_round hlead hpassed
  have hle : Passing describe s.declared ≤ StandsFor describe := fun _ _ hp => hp.standsFor
  have hring : IsRing describe ref := ⟨htypedef, Relation.TransGen.mono hle _ _ hpassed⟩
  have hback : LeadsTo describe a ref := (IsEnd.ring hring).back hlead
  obtain ⟨p, -, hp⟩ := Relation.TransGen.tail'_iff.mp hpassed
  obtain ⟨text, rfl⟩ := hp.standsFor.exists_name hplain
  have hon : OnRing describe a text := ⟨hback, htypedef⟩
  -- keys on the chain are claimed by others, as nothing of it is declared
  have hclaimed : ∀ other k, OnChain describe a other →
      s.registry.get? (.named other) = some k →
        Claims describe (Met s) (.named other) ∧ s.registry.keyOf? k = some (.named other) := by
    intro other k hchain hk
    refine (hs.keys other k hchain hk).resolve_right ?_
    rintro ⟨x, hx, hdeclared⟩
    cases (hblank x hx).symm.trans hdeclared
  have hput {u : State σ} {h : Handle} (hmet : ∀ other, Met s other → Met u other)
      (hlist : u.worklist = s.worklist) (hu : Chained describe valid task.module a (Met s)
        { u with declared := u.declared.put (.name text) h }) :
      Onward describe valid task.module a (.name text) s
        { u with declared := u.declared.put (.name text) h } :=
    ⟨hu.mono fun other hother => (hmet other hother).put _ h, fun hbeyond => absurd hbeyond hnear,
      fun _ _ => hlist⟩
  show Extends describe valid task.module a (.name text) s
    (undefined task text "typedef chain refers to itself")
  have hcases := undefined_run task text "typedef chain refers to itself" s
  unfold Extends Ensures
  rcases hcases with ⟨h, hget, hrun⟩ | ⟨hfree, hrun⟩
  · rw [hrun]
    refine hput (fun _ hmet => hmet) rfl (.put_first hs.truthful hlead hback hblank
      (fun other k hchain hk => .inl (hclaimed other k hchain hk)) ?_ fun _ hun => ?_)
    · rintro other ⟨⟩ -
      exact Option.isSome_iff_exists.mpr ⟨h, hget⟩
    · exact absurd (hclaimed text h ⟨hlead, htypedef⟩ hget).1 (hun text hon)
  · rw [hrun]
    have hwidens := Registry.widens_bind s.registry hfree s.graph.count
    have hget (key : Key) : (s.registry.bind (.named text) s.graph.count).get? key =
        if .named text = key then some s.graph.count else s.registry.get? key :=
      Registry.get?_bind _ _ _ _
    refine hput (fun _ hmet => hmet) rfl (.put_first hs.truthful hlead hback hblank
      (fun other k hchain hk => ?_) ?_ fun hring hun => ?_)
    · have hk := (hget (.named other)).symm.trans hk
      split at hk
      · exact .inr (Option.some.inj hk).symm
      · exact .inl ((hclaimed other k hchain hk).imp_right (hwidens.keyOf? _ _))
    · rintro other ⟨⟩ -
      show ((s.registry.bind _ _).get? _).isSome = true
      rw [hget, if_pos rfl]
      rfl
    · refine ⟨text, hon, Graph.get_push_self _ _, s.diagnostics, [], rfl, ?_⟩
      rw [List.append_nil]
      exact hs.unreported hring hun hblank

/-! ## 6. Every reference -/

/-- A number that is too long stops what is described, and what is read. -/
theorem ensures_declareNew_of_described (hdescribed : IsDescribed ref)
    {Q : Handle → State σ → Prop} {E : Stop → State σ → Prop}
    (hrun : Ensures (declareDescribed task declare (labelOf ref) ref) s Q E)
    (hlong : E .tooManyDigits s) : Ensures (declareNew task declare ref) s Q E := by
  cases ref with
  | id n => exact hrun
  | name text =>
    obtain ⟨t, hparse, hsuffixes, hformat⟩ := hdescribed
    have hsplit : declareNew task declare (.name text) = (do
        needWritable t.withoutSuffixes.isWritable
        declareDescribed task declare (labelOf (.name text)) (.name text)) := by
      simp [declareNew, declareName, hparse, hsuffixes, hformat, labelOf]
    rw [hsplit]
    cases hwritable : t.withoutSuffixes.isWritable with
    | false => exact hlong
    | true => exact hrun

section

variable (hd : Describes task describe valid) (hplain : PlainTypedefs describe)
  (hend : IsEnd describe a)

include hd hplain hend

/-- A typedef. -/
theorem extends_typedef (hdeclare : Declares declare)
    (hchained : DeclaresChained describe valid task.module a declare)
    (hshows : Shows describe ref shape) (hkind : shape.kind = .typedef)
    (htarget : shape.target = some x)
    (hs : Chained describe valid task.module a (Met s) s) (hw : WellFormed s)
    (hnew : s.declared.get? ref = none) (happroached : Approached describe a s ref) :
    Extends describe valid task.module a ref s (declareNew task declare ref) := by
  let P := fun (declared : Assoc Ref Handle) (opens : List String) =>
    declared = s.declared ∧ opens = s.openAliases
  refine ensures_declareNew_of_described hshows.described ?_ (.refl hs)
  refine ensures_query_bind (lasting_along describe valid task.module a P) hd ⟨hs, rfl, rfl⟩ hw
    ?_ fun _ t ht hlist => ⟨ht.1, fun _ hblank => by rwa [ht.2.1], fun _ _ => hlist⟩
  -- asking the source changes neither what is declared nor what is open
  rintro t hwt ⟨ht, hdeclared, hopens⟩ - hlist
  have happroached' := happroached.congr hdeclared hopens
  have hfrom : Extends describe valid task.module a ref t
      (declareAlias task declare (labelOf ref) shape) := by
    by_cases hopen : labelOf ref ∈ t.openAliases
    · have hrun : declareAlias task declare (labelOf ref) shape t =
          undefined task (labelOf ref) "typedef chain refers to itself" t := by
        simp only [declareAlias, htarget, run_get_bind, List.contains_iff_mem, if_pos hopen]
      unfold Extends Ensures
      rw [hrun]
      by_cases hlead : LeadsTo describe ref a
      · exact extends_closing hplain ⟨shape, x, hshows, hkind, htarget⟩ hlead hopen ht
          happroached'
      · exact extends_closing_other hend hshows hlead _ ht hwt
    · exact extends_alias hend hdeclare hchained hplain hshows hkind htarget hopen ht hwt
        (by rw [hdeclared]; exact hnew) happroached'
  have hsame {u : State σ} (ho : Onward describe valid task.module a ref t u) :
      Onward describe valid task.module a ref s u :=
    ⟨ho.chained, fun hbeyond hblank => ho.blank hbeyond (by rwa [hdeclared]),
      fun hring hlead => (ho.worklist hring hlead).trans hlist⟩
  rw [hshows.eq]
  simp only [declareShape, hkind]
  exact Ensures.mono hfrom (fun _ _ ho => hsame ho) fun _ _ ho => hsame ho

/-- One level of the recursion, by the cases above. -/
theorem declaresChained_declareOnce (hdeclare : Declares declare)
    (hchained : DeclaresChained describe valid task.module a declare) :
    DeclaresChained describe valid task.module a (declareOnce task declare) := by
  intro ref s hw hs happroached
  unfold declareOnce Ensures
  cases hget : s.declared.get? ref with
  | some h =>
    simp only [run_get_bind, hget]
    exact .refl hs
  | none =>
    simp only [run_get_bind, hget]
    have hnew : Extends describe valid task.module a ref s (declareNew task declare ref) := by
      by_cases hread : ∀ text, ref = .name text → ∃ t, TypeName.parse text = .ok t
      · by_cases hfinal : IsFinal describe ref
        · exact extends_final hend hdeclare hchained hd hplain hfinal hread hs hw hget happroached
        · obtain ⟨x, hx⟩ := not_forall_not.mp hfinal
          cases hx with
          | typedef hshows hkind htarget =>
            exact extends_typedef hd hplain hend hdeclare hchained hshows hkind htarget hs hw hget
              happroached
          | spelled hparse hsuffixes hformat =>
            exact extends_spelled hend hdeclare hchained hparse hsuffixes hformat hs hw hget
              happroached
      · obtain ⟨text, hread⟩ := not_forall.mp hread
        obtain ⟨rfl, hnot⟩ := Classical.not_imp.mp hread
        cases hparse : TypeName.parse text with
        | ok t => exact absurd ⟨t, hparse⟩ hnot
        | error e => exact extends_refused hparse hs hw hget
    unfold Extends Ensures at hnew
    cases hr : declareNew task declare ref s with
    | ok h t =>
      rw [hr] at hnew
      rw [run_bind_ok hr]
      exact hnew
    | error e t =>
      rw [hr] at hnew
      rw [run_bind_error hr]
      exact hnew

/-- **Declaring keeps what is known of a chain**, however many references it may follow. -/
theorem declaresChained_declare (n : Nat) :
    DeclaresChained describe valid task.module a (NativeTypes.Resolver.declare task n) := by
  induction n with
  | zero => exact fun _ _ _ hs _ => .refl hs
  | succ n ih => exact declaresChained_declareOnce hd hplain hend (declares_declare task n) ih

/-- **After any requests, whether they returned or stopped**, this is known of the chain, and no
typedef is open. -/
theorem Attempted.chained (h : Attempted task valid s) :
    Chained describe valid task.module a (Met s) s ∧ s.openAliases = [] := by
  obtain ⟨session, hvalid, hs⟩ := h
  refine requests_keep_silent (I := fun t => Chained describe valid task.module a (Met t) t ∧
    t.openAliases = []) ?_ ?_ hs (settled_start task.module session).toWellFormed
    ⟨.start hvalid, rfl⟩
  · rintro n ref t hw ⟨ht, hopen⟩
    refine Ensures.mono ((declares_declare task n t ref hw).and
      (declaresChained_declare hd hplain hend n ref t hw ht (.of_nil hopen))) ?_ ?_
    · rintro _ u ⟨⟨-, hg, -⟩, ho⟩
      exact ⟨ho.chained, hg.openAliases.trans hopen⟩
    · rintro _ u ⟨⟨-, hg, -⟩, ho⟩
      exact ⟨ho.chained, hg.openAliases.trans hopen⟩
  · rintro t t' hsilent ⟨ht, hopen⟩
    have hknown := hsilent.known_eq
    simp only [known, Prod.mk.injEq] at hknown
    obtain ⟨-, -, hdeclared, -, -, haliases, -⟩ := hknown
    have hmet : Met t' = Met t := by
      funext text
      rw [Met, Met, hdeclared]
    exact ⟨hmet ▸ ht.silent hsilent, haliases.trans hopen⟩

end

end NativeTypes.Resolver
