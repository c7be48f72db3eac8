/-
NativeTypes.Proofs.Resolver.Counterparts — two requests for the same roots of a
plain module build the same graph under other handles.

All that a request registers lies in a key that a root spells, or a part of an
aggregate that took as many parts in the other resolver. So an instance of one
resolver has a counterpart in the other one, which has the same key
(`exists_alike`). Both resolvers hold equally many instances, and going to the
counterpart is a permutation of handles (`counterparts`). It carries the one
graph to the other (`renames_graph`) and the one registry to the other
(`renames_registry`).

That a counterpart exists is an induction on handles: an instance was met by
way of an older aggregate, which has a counterpart, and whatever an aggregate
mentions its counterpart mentions (`exists_of_mentions`). The rest needs no
induction. Keys are injective in both resolvers, so the counterpart is one
instance, and going there and back again leads home.

Handles that belong to no instance are left where they are, to have an
equivalence of all handles. That is what everything which does not see handles
is stated for.
-/
import Mathlib.Data.Finset.Card
import Mathlib.Data.Finset.Range
import NativeTypes.Proofs.Naming.Renaming
import NativeTypes.Proofs.Resolver.Outcomes

namespace NativeTypes.Resolver

variable {σ : Type} {describe : Description} {valid : σ → Prop} {size : Int}
  {roots : List String} {s s' : State σ} {key : Key} {x x' : Handle}

/-! ## 1. The same keys -/

section

variable (hp : PlainDescription describe) (hr : Resolved describe valid size roots s)
  (hr' : Resolved describe valid size roots s')

include hp hr hr'

/-- What an aggregate mentions is registered in the other resolver. -/
theorem exists_of_mentions (hmentions : Mentions describe s x key) :
    ∃ y, s'.registry.keyOf? y = some key := by
  obtain ⟨shape, a, i, p, text, hplaced, hget, hi, hpart, href, hspells⟩ := hmentions
  obtain ⟨base, suffixes, hu, -, rfl⟩ := hspells
  obtain ⟨v, shape', hk⟩ := exists_knownAs hr.tracked.plain hr.toWellFormed hget
  cases hplaced.symm.trans hk.placed
  obtain ⟨y, b, hk', htaken⟩ := hk.exists_twin hp hr hr'
  exact hk'.exists_mentioned hr' (htaken ▸ hi) ⟨shape, p, text, hk.shows.eq, hpart, href, hu⟩

/-- **Every instance has a counterpart** in the other resolver. -/
theorem exists_alike (hx : x < s.graph.count) : ∃ y, Alike s s' x y := by
  obtain ⟨key, hkey⟩ := hr.exists_key hx
  obtain ⟨whole, ⟨suffixes, hwhole⟩, hmet⟩ := hr.tracked.met x key hkey
  have hregistered : ∃ z, s'.registry.keyOf? z = some whole := by
    rcases hmet with ⟨text, hmem, base, rest, hu, -, rfl⟩ | ⟨u, -, hmentions⟩
    · obtain ⟨z, hdeclared⟩ := hr'.roots text hmem
      exact ⟨z, hr'.tracked.plain.spelled text z base rest hdeclared hu⟩
    · exact exists_of_mentions hp hr hr' hmentions
  obtain ⟨z, hz⟩ := hregistered
  obtain ⟨y, hy⟩ := hr'.tracked.plain.exists_of_wrap hr'.toWellFormed (hwhole ▸ hz)
  exact ⟨y, key, hkey, hy⟩

end

/-! ## 2. Counterparts -/

/-- The instance that has the same key in the other resolver. -/
def counterpart (s s' : State σ) (x : Handle) : Handle :=
  ((s.registry.keyOf? x).bind s'.registry.get?).getD x

theorem Alike.symm (h : Alike s s' x x') : Alike s' s x' x := by
  obtain ⟨key, hk, hk'⟩ := h
  exact ⟨key, hk', hk⟩

theorem Alike.counterpart_eq (hw' : WellFormed s') (h : Alike s s' x x') :
    counterpart s s' x = x' := by
  obtain ⟨key, hk, hk'⟩ := h
  have hget : s'.registry.get? key = some x' :=
    (hw'.coherent.get?_iff key x').mpr (Registry.mem_keysOf_of_keyOf? hk')
  simp only [counterpart, hk, Option.bind_some, hget, Option.getD_some]

/-- Where there is no instance, there is no counterpart. -/
theorem counterpart_of_le (hw : WellFormed s) (hx : s.graph.count ≤ x) :
    counterpart s s' x = x := by
  cases hk : s.registry.keyOf? x with
  | none => simp only [counterpart, hk, Option.bind_none, Option.getD_none]
  | some key => exact absurd (hw.lt_count_of_keyOf? hk) (Nat.not_lt.mpr hx)

section

variable (hp : PlainDescription describe) (hr : Resolved describe valid size roots s)
  (hr' : Resolved describe valid size roots s')

include hp hr hr'

theorem alike_counterpart (hx : x < s.graph.count) : Alike s s' x (counterpart s s' x) := by
  obtain ⟨y, hy⟩ := exists_alike hp hr hr' hx
  rwa [hy.counterpart_eq hr'.toWellFormed]

theorem counterpart_lt (hx : x < s.graph.count) : counterpart s s' x < s'.graph.count := by
  obtain ⟨key, -, hk'⟩ := alike_counterpart hp hr hr' hx
  exact hr'.lt_count_of_keyOf? hk'

theorem count_le : s.graph.count ≤ s'.graph.count := by
  have hinjective : Set.InjOn (counterpart s s') (Finset.range s.graph.count) := by
    intro x hx y hy heq
    rw [Finset.coe_range, Set.mem_Iio] at hx hy
    have hback := (alike_counterpart hp hr hr' hx).symm.counterpart_eq hr.toWellFormed
    rw [heq, (alike_counterpart hp hr hr' hy).symm.counterpart_eq hr.toWellFormed] at hback
    exact hback.symm
  have hcard := Finset.card_le_card_of_injOn (t := Finset.range s'.graph.count)
    (counterpart s s') (fun x hx => ?_) hinjective
  · rwa [Finset.card_range, Finset.card_range] at hcard
  · rw [Finset.coe_range, Set.mem_Iio] at hx ⊢
    exact counterpart_lt hp hr hr' hx

/-- Both resolvers hold equally many instances. -/
theorem count_eq : s.graph.count = s'.graph.count :=
  Nat.le_antisymm (count_le hp hr hr') (count_le hp hr' hr)

theorem counterpart_counterpart (x : Handle) :
    counterpart s' s (counterpart s s' x) = x := by
  by_cases hx : x < s.graph.count
  · exact (alike_counterpart hp hr hr' hx).symm.counterpart_eq hr.toWellFormed
  · have hle := Nat.le_of_not_lt hx
    rw [counterpart_of_le hr.toWellFormed hle,
      counterpart_of_le hr'.toWellFormed (count_eq hp hr hr' ▸ hle)]

end

/-- Going to the counterparts, and back. -/
def counterparts (hp : PlainDescription describe) (hr : Resolved describe valid size roots s)
    (hr' : Resolved describe valid size roots s') : Handle ≃ Handle where
  toFun := counterpart s s'
  invFun := counterpart s' s
  left_inv := counterpart_counterpart hp hr hr'
  right_inv := counterpart_counterpart hp hr' hr

/-! ## 3. The same graph -/

/-- An aggregate without template arguments is known by what it was made as, by its stage and by
its parts. -/
theorem eq_rename_of_blank {f : Handle → Handle} {a a' : Aggregate} {name : String} {shape : Shape}
    (hmade : a.blank = madeOf name shape) (hmade' : a'.blank = madeOf name shape)
    (hstage : a.stage = a'.stage) (hbases : a.bases.map (BasePart.rename f) = a'.bases)
    (hfields : a.fields.map (FieldPart.rename f) = a'.fields) : a' = a.rename f := by
  have htemplate : a.template = none := congrArg Aggregate.template hmade
  have hblank : a'.blank = a.blank := hmade'.trans hmade.symm
  obtain ⟨name, scope, size, isUnion, template, bases, fields, stage, kindLost⟩ := a
  obtain rfl : template = none := htemplate
  obtain rfl : stage = a'.stage := hstage
  cases a'
  simp only [Aggregate.blank, Aggregate.mk.injEq] at hblank
  simp only [Aggregate.rename, Option.map_none, Aggregate.mk.injEq]
  obtain ⟨hname, hscope, hsize, hunion, ht, -, -, -, hlost⟩ := hblank
  exact ⟨hname, hscope, hsize, hunion, ht, hbases.symm, hfields.symm, trivial, hlost⟩

section

variable (hp : PlainDescription describe) (hr : Resolved describe valid size roots s)
  (hr' : Resolved describe valid size roots s')

include hp hr hr'

/-- Aggregates of one key took the same parts, from counterparts. -/
theorem eq_rename_of_alike {a a' : Aggregate} (hget : s.graph.get x = .aggregate a)
    (hget' : s'.graph.get x' = .aggregate a') (halike : Alike s s' x x') :
    a' = a.rename (counterpart s s') := by
  have htwins := hr.tracked.plain.twins hp hr'.tracked.plain hr.toWellFormed hr'.toWellFormed halike
  rw [hget, hget'] at htwins
  obtain ⟨v, shape, hk⟩ := exists_knownAs hr.tracked.plain hr.toWellFormed hget
  obtain ⟨y, b, hk', htaken⟩ := hk.exists_twin hp hr hr'
  obtain rfl : y = x' := by
    obtain ⟨key, hkey, hkey'⟩ := halike
    cases hk.key.symm.trans hkey
    exact hr'.coherent.keyOf?_inj hk'.key hkey'
  cases hk'.get.symm.trans hget'
  obtain ⟨hbases, hfields⟩ := hk.parts_alike hp hr hr' hk' htaken
  obtain ⟨_, ha, hstage⟩ := hr.complete x a hget
  cases ha.symm.trans hget
  obtain ⟨_, ha', hstage'⟩ := hr'.complete _ _ hget'
  cases ha'.symm.trans hget'
  cases htwins with
  | aggregate hmade hmade' =>
    refine eq_rename_of_blank hmade hmade' (hstage.trans hstage'.symm) ?_ ?_
    · rw [← List.map_id a'.bases]
      refine map_eq_map_of_forall₂ (hbases.imp fun q q' => ?_)
      rintro ⟨htype, hoffset, htruth⟩
      rw [BasePart.rename, htype.counterpart_eq hr'.toWellFormed, hoffset, htruth, id_eq]
    · rw [← List.map_id a'.fields]
      refine map_eq_map_of_forall₂ (hfields.imp fun q q' => ?_)
      rintro ⟨htype, hname, hoffset, hbit, hwidth, htruth⟩
      rw [FieldPart.rename, htype.counterpart_eq hr'.toWellFormed, hname, hoffset, hbit, hwidth,
        htruth, id_eq]

theorem get_counterpart (x : Handle) :
    s'.graph.get (counterpart s s' x) = (s.graph.get x).rename (counterpart s s') := by
  by_cases hx : x < s.graph.count
  · have halike := alike_counterpart hp hr hr' hx
    have htwins :=
      hr.tracked.plain.twins hp hr'.tracked.plain hr.toWellFormed hr'.toWellFormed halike
    generalize hget : s.graph.get x = i at htwins ⊢
    generalize hget' : s'.graph.get (counterpart s s' x) = i' at htwins
    cases htwins with
    | primitive => rfl
    | pointer htarget => rw [Instance.rename, htarget.counterpart_eq hr'.toWellFormed]
    | array helement => rw [Instance.rename, helement.counterpart_eq hr'.toWellFormed]
    | aggregate => rw [Instance.rename, eq_rename_of_alike hp hr hr' hget hget' halike]
    | undefined => rfl
  · have hle := Nat.le_of_not_lt hx
    rw [counterpart_of_le hr.toWellFormed hle, Graph.get_of_count_le hle,
      Graph.get_of_count_le (count_eq hp hr hr' ▸ hle)]
    rfl

/-- **The one graph is the other one** with counterparts for its handles. -/
theorem renames_graph : Graph.Renames (counterparts hp hr hr') s.graph s'.graph where
  count x := by
    refine ⟨fun hx => ?_, counterpart_lt hp hr hr'⟩
    have hback := counterpart_lt hp hr' hr hx
    rwa [show counterparts hp hr hr' x = counterpart s s' x from rfl,
      counterpart_counterpart hp hr hr'] at hback
  get := get_counterpart hp hr hr'
  layered := hr.below
  layered' := hr'.below

/-! ## 4. The same registry -/

theorem keyOf?_counterpart (x : Handle) :
    s'.registry.keyOf? (counterpart s s' x) = s.registry.keyOf? x := by
  by_cases hx : x < s.graph.count
  · exact (alike_counterpart hp hr hr' hx).keyOf?.symm
  · have hnone {t : State σ} (hw : WellFormed t) (hle : t.graph.count ≤ x) :
        t.registry.keyOf? x = none := by
      cases hk : t.registry.keyOf? x with
      | none => rfl
      | some key => exact absurd (hw.lt_count_of_keyOf? hk) (Nat.not_lt.mpr hle)
    have hle := Nat.le_of_not_lt hx
    rw [counterpart_of_le hr.toWellFormed hle, hnone hr.toWellFormed hle,
      hnone hr'.toWellFormed (count_eq hp hr hr' ▸ hle)]

theorem isInvalid_counterpart (x : Handle) :
    s'.registry.isInvalid (counterpart s s' x) = s.registry.isInvalid x := by
  have hvalid {t : State σ} {y : Handle} (ht : Resolved describe valid size roots t)
      (hnot : ∀ a, t.graph.get y ≠ .aggregate a) : t.registry.isInvalid y = false := by
    rw [Bool.eq_false_iff]
    intro hinvalid
    obtain ⟨⟨a, ha, -⟩, -⟩ := (ht.tracked.marks y).mp hinvalid
    exact hnot a ha
  have hget := get_counterpart hp hr hr' x
  cases hx : s.graph.get x with
  | aggregate a =>
    obtain ⟨v, shape, hk⟩ := exists_knownAs hr.tracked.plain hr.toWellFormed hx
    obtain ⟨y, b, hk', htaken⟩ := hk.exists_twin hp hr hr'
    have halike : Alike s s' x y := ⟨_, hk.key, hk'.key⟩
    rw [halike.counterpart_eq hr'.toWellFormed]
    exact (hk.isInvalid_eq hp hr hr' hk' htaken).symm
  | _ =>
    rw [hx] at hget
    rw [hvalid hr (by simp [hx]), hvalid hr' (by simp [hget, Instance.rename])]

/-- **The one registry is the other one** with counterparts for its handles. -/
theorem renames_registry : Registry.Renames (counterparts hp hr hr') s.registry s'.registry where
  keyOf? := keyOf?_counterpart hp hr hr'
  keysOf x := by
    have hkey := keyOf?_counterpart hp hr hr' x
    cases hk : s.registry.keyOf? x with
    | none =>
      rw [hk] at hkey
      have hnil {r : Registry Key} {y : Handle} (h : r.keyOf? y = none) : r.keysOf y = [] :=
        List.head?_eq_none_iff.mp h
      show (s'.registry.keysOf (counterpart s s' x)).Perm _
      rw [hnil hk, hnil hkey]
    | some key =>
      rw [hk] at hkey
      show (s'.registry.keysOf (counterpart s s' x)).Perm _
      rw [hr.tracked.plain.single x key hk, hr'.tracked.plain.single _ key hkey]
  isInvalid := isInvalid_counterpart hp hr hr'

end

end NativeTypes.Resolver
