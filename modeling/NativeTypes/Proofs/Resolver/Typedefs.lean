/-
NativeTypes.Proofs.Resolver.Typedefs — where chains of typedefs end.

A typedef stands for its target, and a name for its canonical spelling
(`StandsFor`). Both ask for one reference only, so a chain goes one way. It
leads to a type that stands for nothing else, or it runs round: there are
finitely many typedefs, so one that was passed is met again
(`PlainTypedefs.exists_end`).

Declaring comes to an end in both cases. A typedef that is met again is
open, and asks for nothing (`Ends.of_ring`); and the chain of a final type
that ends goes on ending when typedefs are passed on the way to it
(`Ends.of_leadsTo`).
-/
import NativeTypes.Proofs.Resolver.Plain
import NativeTypes.Proofs.Resolver.Chains

namespace NativeTypes.Resolver

variable {describe : Description} {ref x y a f : Ref} {opens opens' : List String}

/-! ## 1. One step -/

/-- The reference is described as a typedef of another type. -/
def IsTypedef (describe : Description) (ref : Ref) : Prop :=
  ∃ shape target, Shows describe ref shape ∧ shape.kind = .typedef ∧ shape.target = some target

/-- The first reference stands for the second one: a typedef for its target, and a name for its
canonical spelling. -/
inductive StandsFor (describe : Description) : Ref → Ref → Prop
  | typedef {ref target : Ref} {shape : Shape} : Shows describe ref shape →
      shape.kind = .typedef → shape.target = some target → StandsFor describe ref target
  | spelled {text : String} {t : TypeName} : TypeName.parse text = .ok t → t.suffixes = [] →
      t.format ≠ text → StandsFor describe (.name text) (.name t.format)

theorem IsTypedef.exists_standsFor (h : IsTypedef describe ref) :
    ∃ next, StandsFor describe ref next := by
  obtain ⟨shape, target, hshows, hkind, htarget⟩ := h
  exact ⟨target, .typedef hshows hkind htarget⟩

/-- What stands for another reference asks for it, and for nothing else. A typedef is open
meanwhile. -/
theorem StandsFor.exists_call (h : StandsFor describe ref x) :
    ∃ opens, calls describe ref = [⟨opens, x⟩] ∧
      ∀ label, opens = some label ↔ IsTypedef describe ref ∧ label = labelOf ref := by
  cases h with
  | typedef hshows hkind htarget =>
    refine ⟨some (labelOf ref), by simp [hshows.calls_eq, Shape.calls, hkind, htarget], ?_⟩
    intro label
    rw [Option.some_inj]
    exact ⟨fun heq => ⟨⟨_, _, hshows, hkind, htarget⟩, heq.symm⟩, fun h => h.2.symm⟩
  | spelled hparse hsuffixes hformat =>
    refine ⟨none, by simp [calls, hparse, hsuffixes, hformat, Call.to], ?_⟩
    intro label
    constructor
    · intro heq
      cases heq
    · rintro ⟨⟨shape, target, hshows, -⟩, -⟩
      obtain ⟨t, hparse', -, hself⟩ := hshows.described
      cases hparse.symm.trans hparse'
      exact absurd hself hformat

theorem StandsFor.unique (h : StandsFor describe ref x) (h' : StandsFor describe ref y) :
    x = y := by
  obtain ⟨_, hcalls, -⟩ := h.exists_call
  obtain ⟨_, hcalls', -⟩ := h'.exists_call
  cases hcalls.symm.trans hcalls'
  rfl

theorem StandsFor.asksFor_iff (h : StandsFor describe ref x) : AsksFor describe ref y ↔ y = x := by
  obtain ⟨opens, hcalls, -⟩ := h.exists_call
  unfold AsksFor
  rw [hcalls]
  constructor
  · rintro ⟨c, hc, rfl⟩
    obtain rfl := List.mem_singleton.mp hc
    rfl
  · rintro rfl
    exact ⟨_, List.mem_singleton_self _, rfl⟩

/-! ## 2. Chains -/

/-- The chain of the first reference comes by the second one. -/
abbrev LeadsTo (describe : Description) : Ref → Ref → Prop :=
  Relation.ReflTransGen (StandsFor describe)

/-- The reference stands for itself only. -/
def IsFinal (describe : Description) (f : Ref) : Prop := ∀ x, ¬StandsFor describe f x

/-- The reference is on a ring of typedefs. -/
structure IsRing (describe : Description) (a : Ref) : Prop where
  typedef : IsTypedef describe a
  round : Relation.TransGen (StandsFor describe) a a

/-- Where chains lead to: a type that is not reached again from itself, or round a ring. -/
inductive IsEnd (describe : Description) (a : Ref) : Prop
  | final : IsFinal describe a → ¬Relation.TransGen (AsksFor describe) a a → IsEnd describe a
  | ring : IsRing describe a → IsEnd describe a

theorem IsFinal.not_typedef (hf : IsFinal describe f) : ¬IsTypedef describe f := fun htypedef => by
  obtain ⟨x, hx⟩ := htypedef.exists_standsFor
  exact hf x hx

theorem LeadsTo.reaches (h : LeadsTo describe ref x) :
    Relation.ReflTransGen (AsksFor describe) ref x :=
  Relation.ReflTransGen.mono (fun _ _ hstep => hstep.asksFor_iff.mpr rfl) _ _ h

/-- The chain goes on from the next reference. -/
theorem LeadsTo.next (h : LeadsTo describe ref a) (hend : IsEnd describe a)
    (hx : StandsFor describe ref x) : LeadsTo describe x a := by
  have hfirst {b : Ref} (hb : StandsFor describe ref b) (hrest : LeadsTo describe b a) :
      LeadsTo describe x a := hb.unique hx ▸ hrest
  rcases Relation.ReflTransGen.cases_head h with rfl | ⟨b, hb, hrest⟩
  · cases hend with
    | final hfinal => exact absurd hx (hfinal x)
    | ring hring =>
      obtain ⟨b, hb, hrest⟩ := Relation.TransGen.head'_iff.mp hring.round
      exact hfirst hb hrest
  · exact hfirst hb hrest

/-- From a ring every chain leads back to it. -/
theorem IsEnd.back (hend : IsEnd describe a) (h : LeadsTo describe a x) : LeadsTo describe x a := by
  induction h with
  | refl => exact .refl
  | tail _ hstep ih => exact ih.next hend hstep

theorem IsFinal.eq (hf : IsFinal describe f) (h : LeadsTo describe f x) : x = f := by
  rcases Relation.ReflTransGen.cases_head h with rfl | ⟨b, hb, -⟩
  · rfl
  · exact absurd hb (hf b)

/-! ## 3. Declaring ends -/

theorem Ends.mono (h : Ends describe opens ref) (hsub : opens ⊆ opens') :
    Ends describe opens' ref := by
  induction h generalizing opens' with
  | @intro opens ref _ ih =>
    refine .intro fun c hc hclosed => ih c hc (fun label hlabel hmem => ?_) ?_
    · exact hclosed label hlabel (hsub hmem)
    · exact List.append_subset.mpr ⟨List.subset_append_left _ _,
        fun label hmem => List.mem_append_right _ (hsub hmem)⟩

/-- A chain ends if its last part does, with whatever is open by then. -/
theorem Ends.of_leadsTo (h : LeadsTo describe ref a)
    (hend : ∀ opens', opens ⊆ opens' → Ends describe opens' a) :
    ∀ opens', opens ⊆ opens' → Ends describe opens' ref := by
  induction h using Relation.ReflTransGen.head_induction_on with
  | refl => exact hend
  | head hstep _ ih =>
    intro opens' hsub
    obtain ⟨opened, hcalls, -⟩ := hstep.exists_call
    refine .intro fun c hc _ => ?_
    rw [hcalls] at hc
    obtain rfl := List.mem_singleton.mp hc
    exact ih _ fun label hmem => List.mem_append_right _ (hsub hmem)

theorem Ends.of_final (h : LeadsTo describe ref f) (hf : Ends describe [] f) :
    Ends describe [] ref :=
  Ends.of_leadsTo h (fun _ hsub => hf.mono hsub) [] (List.Subset.refl _)

/-- **A chain that runs round ends** at the typedef that is met again. -/
theorem Ends.of_ring (h : LeadsTo describe ref a) (ha : IsRing describe a) :
    Ends describe [] ref := by
  obtain ⟨next, hstep, hrest⟩ := Relation.TransGen.head'_iff.mp ha.round
  obtain ⟨opened, hcalls, hopened⟩ := hstep.exists_call
  have hlabel : opened = some (labelOf a) := (hopened _).mpr ⟨ha.typedef, rfl⟩
  have hmet (opens : List String) (hmem : [labelOf a] ⊆ opens) : Ends describe opens a := by
    refine .intro fun c hc hclosed => ?_
    rw [hcalls, hlabel] at hc
    obtain rfl := List.mem_singleton.mp hc
    exact absurd (hmem (List.mem_singleton_self _)) (hclosed _ rfl)
  have hround (opens : List String) (_ : [] ⊆ opens) : Ends describe opens a := by
    refine .intro fun c hc _ => ?_
    rw [hcalls, hlabel] at hc
    obtain rfl := List.mem_singleton.mp hc
    exact Ends.of_leadsTo hrest hmet _ (List.subset_append_left _ _)
  exact Ends.of_leadsTo h hround [] (.refl _)

/-! ## 4. Every chain has an end -/

/-- Every typedef is found by its own name, and its target is a name. -/
structure PlainTypedefs (describe : Description) : Prop where
  target : ∀ ref shape, Shows describe ref shape → shape.kind = .typedef →
    ∃ text base suffixes, shape.target = some (.name text) ∧ Unwraps text base suffixes
  own : ∀ text shape, Shows describe (.name text) shape → shape.kind = .typedef →
    shape.name.isEmpty = false ∧ keyOfName shape.name = .named text
  /-- What is known by an id and has the name of a typedef has its target. -/
  twin : ∀ n shape target text, Shows describe (.id n) shape → shape.kind = .typedef →
    shape.target = some target → keyOfName shape.name = .named text →
    IsTypedef describe (.name text) → StandsFor describe (.name text) target

/-- A typedef by the name that another one gives its target stands for the target as well. -/
theorem PlainTypedefs.standsFor_of_key (hplain : PlainTypedefs describe) {shape : Shape}
    {text : String} (hshows : Shows describe ref shape) (hkind : shape.kind = .typedef)
    (htarget : shape.target = some x) (hkey : keyOfName shape.name = .named text)
    (htypedef : IsTypedef describe (.name text)) : StandsFor describe (.name text) x := by
  cases ref with
  | name other =>
    obtain ⟨-, hown⟩ := hplain.own other shape hshows hkind
    cases hown.symm.trans hkey
    exact .typedef hshows hkind htarget
  | id n => exact hplain.twin n shape x text hshows hkind htarget hkey htypedef

/-- A canonical name is a typedef or stands for itself. -/
theorem isTypedef_or_isFinal {text : String} (h : IsDescribed (.name text)) :
    IsTypedef describe (.name text) ∨ IsFinal describe (.name text) := by
  by_cases ht : IsTypedef describe (.name text)
  · exact .inl ht
  · refine .inr fun x hx => ?_
    cases hx with
    | typedef hshows hkind htarget => exact ht ⟨_, _, hshows, hkind, htarget⟩
    | spelled hparse _ hformat =>
      obtain ⟨t, hparse', -, hself⟩ := h
      cases hparse.symm.trans hparse'
      exact hformat hself

/-- A name leads to what it spells, or to something under suffixes. -/
theorem Unwraps.exists_leadsTo {text base : String} {suffixes : List Suffix}
    (h : Unwraps text base suffixes) : LeadsTo describe (.name text) (.name base) ∨
      ∃ f, LeadsTo describe (.name text) f ∧ IsFinal describe f := by
  induction h with
  | bare => exact .inl .refl
  | @wrapped text base t suffixes hnot hparse _ ih =>
    by_cases hsuffixes : t.suffixes = []
    · have hself : t.withoutSuffixes = t := by
        cases t
        obtain rfl : _ = [] := hsuffixes
        rfl
      rw [hself] at ih
      have hstep : StandsFor describe (.name text) (.name t.format) :=
        .spelled hparse hsuffixes fun hformat => hnot ⟨t, hparse, hsuffixes, hformat⟩
      exact ih.imp (.head hstep) fun ⟨f, hf, hfinal⟩ => ⟨f, .head hstep hf, hfinal⟩
    · refine .inr ⟨_, .refl, fun x hx => ?_⟩
      cases hx with
      | typedef hshows => exact hnot hshows.described
      | spelled hparse' hnil =>
        cases hparse.symm.trans hparse'
        exact hsuffixes hnil

/-- What stands for something is a name, unless it is a typedef itself. -/
theorem StandsFor.exists_name (hplain : PlainTypedefs describe) (h : StandsFor describe ref x) :
    ∃ text, x = .name text := by
  cases h with
  | typedef hshows hkind htarget =>
    obtain ⟨text, -, -, heq, -⟩ := hplain.target _ _ hshows hkind
    exact ⟨text, Option.some.inj (htarget.symm.trans heq)⟩
  | spelled => exact ⟨_, rfl⟩

/-- A typedef leads to another typedef, or to a type that stands for itself. -/
theorem PlainTypedefs.exists_step (hplain : PlainTypedefs describe)
    (h : IsTypedef describe ref) : (∃ f, LeadsTo describe ref f ∧ IsFinal describe f) ∨
      ∃ base, IsTypedef describe (.name base) ∧
        Relation.TransGen (StandsFor describe) ref (.name base) := by
  obtain ⟨shape, target, hshows, hkind, htarget⟩ := h
  obtain ⟨text, base, suffixes, heq, hspells⟩ := hplain.target _ _ hshows hkind
  obtain rfl := Option.some.inj (htarget.symm.trans heq)
  have hstep : StandsFor describe ref (.name text) := .typedef hshows hkind htarget
  rcases hspells.exists_leadsTo with hbase | ⟨f, hf, hfinal⟩
  · rcases isTypedef_or_isFinal hspells.described with htypedef | hfinal
    · exact .inr ⟨base, htypedef, .head' hstep hbase⟩
    · exact .inl ⟨_, .head hstep hbase, hfinal⟩
  · exact .inl ⟨f, .head hstep hf, hfinal⟩

/-- **Every chain of typedefs has an end**: each step leads to a typedef that was not passed yet,
and there are finitely many. -/
theorem PlainTypedefs.exists_end (hplain : PlainTypedefs describe) (names : List String)
    (hnames : ∀ text, IsTypedef describe (.name text) → text ∈ names)
    (href : IsTypedef describe ref) : (∃ f, LeadsTo describe ref f ∧ IsFinal describe f) ∨
      ∃ base, LeadsTo describe ref (.name base) ∧ IsRing describe (.name base) := by
  -- the typedefs are still to come, or they lead here
  have hround (n : Nat) : ∀ (rest : List String) (text : String), rest.length = n →
      IsTypedef describe (.name text) →
      (∀ name, IsTypedef describe (.name name) →
        name ∈ rest ∨ Relation.TransGen (StandsFor describe) (.name name) (.name text)) →
      (∃ f, LeadsTo describe (.name text) f ∧ IsFinal describe f) ∨
        ∃ base, LeadsTo describe (.name text) (.name base) ∧ IsRing describe (.name base) := by
    induction n with
    | zero =>
      intro rest text hlength htext hrest
      obtain rfl := List.length_eq_zero_iff.mp hlength
      rcases hrest text htext with hmem | hpath
      · cases hmem
      · exact .inr ⟨text, .refl, htext, hpath⟩
    | succ n ih =>
      intro rest text hlength htext hrest
      rcases hrest text htext with hmem | hpath
      · rcases hplain.exists_step htext with hfinal | ⟨base, hbase, hstep⟩
        · exact .inl hfinal
        · have herase : (rest.erase text).length = n := by
            rw [List.length_erase_of_mem hmem, hlength]
            rfl
          have hnext := ih (rest.erase text) base herase hbase fun name hname => by
            by_cases heq : name = text
            · exact .inr (heq ▸ hstep)
            · exact (hrest name hname).imp (List.mem_erase_of_ne heq).mpr (·.trans hstep)
          exact hnext.imp (fun ⟨f, hf, hfinal⟩ => ⟨f, hstep.to_reflTransGen.trans hf, hfinal⟩)
            fun ⟨last, hlast, hring⟩ => ⟨last, hstep.to_reflTransGen.trans hlast, hring⟩
      · exact .inr ⟨text, .refl, htext, hpath⟩
  rcases hplain.exists_step href with hfinal | ⟨base, hbase, hstep⟩
  · exact .inl hfinal
  · have hfrom := hround names.length names base rfl hbase fun name hname =>
      .inl (hnames name hname)
    exact hfrom.imp (fun ⟨f, hf, hfinal⟩ => ⟨f, hstep.to_reflTransGen.trans hf, hfinal⟩)
      fun ⟨last, hlast, hring⟩ => ⟨last, hstep.to_reflTransGen.trans hlast, hring⟩

end NativeTypes.Resolver
