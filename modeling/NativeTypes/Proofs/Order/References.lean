/-
NativeTypes.Proofs.Order.References — the order of declarations and what they
refer to.

`Graph.Mentions` — a declaration is reached from another one through instances
without names, by value or not. The edges between declarations are the mentions
between them, none more and none less (`Graph.mem_edges_iff`). An edge that
goes from one component to another goes backwards in the order, so what a
declaration mentions stands before it or in its own component, and the
components are those of mutual mentions. Inside a component only embedding
counts, and then keys: of two declarations that embed nothing the lesser one
comes first, whichever of them mentions the other (`sublist_order_iff`).

The walk that finds edges carries a flag and visits a pair of instance and flag
once, so an edge that is met by value and by reference is met twice. For
mentions the flag is dropped: it is only about which edges are of value, and a
path with some flags is a path.

That keys decide inside a component holds for declarations that embed nothing,
and for those only. One that embeds another may have to wait, and what waits
with it can be overtaken by greater keys.
-/
import Mathlib.Data.Prod.Lex
import Mathlib.Data.String.Basic
import NativeTypes.Proofs.Instance.Walk
import NativeTypes.Proofs.Order.Emission

namespace NativeTypes

/-! ## 1. Places in a list -/

/-- Of two elements of a list without repetitions only one comes first. -/
theorem not_sublist_swap {α : Type} {a b : α} {l : List α} (hnodup : l.Nodup)
    (h : [a, b].Sublist l) : ¬[b, a].Sublist l := by
  induction l with
  | nil => cases h
  | cons c l ih =>
    obtain ⟨hc, hl⟩ := List.nodup_cons.mp hnodup
    intro hswap
    rcases List.sublist_cons_iff.mp h with hab | ⟨r, hr, hb⟩
    · rcases List.sublist_cons_iff.mp hswap with hba | ⟨r, hr, -⟩
      · exact ih hl hab hba
      · cases hr
        exact hc (hab.subset (by simp))
    · cases hr
      rcases List.sublist_cons_iff.mp hswap with hba | ⟨r, hr, ha⟩
      · exact hc (hba.subset (by simp))
      · cases hr
        exact hc (ha.subset (by simp))

theorem pair_sublist_or_swap {α : Type} {a b : α} {l : List α} (ha : a ∈ l) (hb : b ∈ l)
    (hne : a ≠ b) : [a, b].Sublist l ∨ [b, a].Sublist l := by
  obtain ⟨before, after, rfl⟩ := List.append_of_mem ha
  rcases List.mem_append.mp hb with hbefore | hrest
  · exact .inr ((List.singleton_sublist.mpr hbefore).append
      (List.singleton_sublist.mpr List.mem_cons_self))
  · have hafter : b ∈ after := (List.mem_cons.mp hrest).resolve_left (Ne.symm hne)
    exact .inl (((List.singleton_sublist.mpr hafter).cons_cons a).trans
      (List.sublist_append_right _ _))

/-- What stands before an element of a list without repetitions. -/
theorem mem_of_pair_sublist {α : Type} {a b : α} {before after : List α}
    (hnodup : (before ++ b :: after).Nodup) (hsub : [a, b].Sublist (before ++ b :: after)) :
    a ∈ before := by
  have hne : a ≠ b := fun hab => List.nodup_iff_sublist.mp hnodup b (hab ▸ hsub)
  rcases List.mem_append.mp (hsub.subset List.mem_cons_self) with hbefore | hrest
  · exact hbefore
  · have hafter : a ∈ after := (List.mem_cons.mp hrest).resolve_left hne
    have hswap : [b, a].Sublist (before ++ b :: after) :=
      ((List.singleton_sublist.mpr hafter).cons_cons b).trans (List.sublist_append_right _ _)
    exact absurd hswap (not_sublist_swap hnodup hsub)

namespace Graph

variable {g : Graph} {nodes : List Handle} {x y : Handle}

/-- The step goes on to another one, through instances without names. -/
abbrev Leads (g : Graph) : Handle × Bool → Handle × Bool → Prop :=
  Relation.ReflTransGen fun u v => v ∈ g.steps u

/-- `y` is a part of `x`, through instances without names. -/
def Mentions (g : Graph) (x y : Handle) : Prop :=
  ∃ part ∈ (g.get x).parts, ∃ byValue, g.Leads part (y, byValue)

/-! ## 2. Edges are mentions -/

/-- The steps behind an instance without a name are to its parts. -/
theorem mem_steps_of_mem_parts {u : Handle × Bool} {part : Handle × Bool}
    (hu : (g.get u.1).isNamed = false) (hpart : part ∈ (g.get u.1).parts) :
    (part.1, u.2 && part.2) ∈ g.steps u := by
  unfold steps
  rw [if_neg (by simp [hu])]
  exact List.mem_map.mpr ⟨part, hpart, rfl⟩

theorem mem_allSteps {h : Handle} (hh : h < g.count) (byValue : Bool) :
    (h, byValue) ∈ g.allSteps := by
  refine List.mem_flatMap.mpr ⟨h, List.mem_range.mpr hh, ?_⟩
  cases byValue with
  | true => exact List.mem_cons_self
  | false => exact List.mem_cons_of_mem _ List.mem_cons_self

theorem mem_foldl_addEdge_iff (edges : Assoc Handle Bool) (steps : List (Handle × Bool)) :
    y ∈ (steps.foldl addEdge edges).map Prod.fst ↔
      y ∈ edges.map Prod.fst ∨ y ∈ steps.map Prod.fst := by
  refine ⟨mem_foldl_addEdge edges steps, ?_⟩
  induction steps generalizing edges with
  | nil => simp
  | cons step steps ih =>
    intro hy
    refine ih (addEdge edges step) ?_
    rw [Assoc.mem_keys_iff, addEdge, Assoc.get?_put]
    rw [Assoc.mem_keys_iff, List.map_cons, List.mem_cons] at hy
    split
    · exact .inl rfl
    · rename_i hne
      exact hy.imp_right fun h => h.resolve_left (Ne.symm hne)

variable (hparts : ∀ h, ∀ p ∈ (g.get h).parts, p.1 < g.count)
include hparts

/-- Whatever a part leads to is met. -/
theorem mem_visits_of_leads {part step : Handle × Bool} (hpart : part ∈ (g.get x).parts)
    (hleads : g.Leads part step) : step ∈ visits g.steps g.allSteps (g.get x).parts := by
  induction hleads with
  | refl => exact mem_visits_of_mem_stack _ _ _ hpart (mem_allSteps (hparts x _ hpart) _)
  | @tail u v _ hstep ih =>
    refine mem_visits_of_mem_next _ _ _ ih hstep ?_
    unfold steps at hstep
    split at hstep
    · cases hstep
    · obtain ⟨p, hp, rfl⟩ := List.mem_map.mp hstep
      exact mem_allSteps (hparts u.1 p hp) _

/-- **The edges of a declaration lead to the other declarations that it mentions.** -/
theorem mem_edges_iff : y ∈ (g.declarationEdges nodes x).map Prod.fst ↔
    g.Mentions x y ∧ (g.get y).isNamed = true ∧ y ∈ nodes ∧ y ≠ x := by
  unfold declarationEdges
  rw [mem_foldl_addEdge_iff, List.map_nil, List.mem_map]
  constructor
  · rintro (hnil | ⟨⟨h, byValue⟩, hstep, rfl⟩)
    · cases hnil
    · obtain ⟨hmet, hkept⟩ := List.mem_filter.mp hstep
      obtain ⟨part, hpart, hleads⟩ := exists_next_of_mem_visits hmet
      simp only [Bool.and_eq_true, List.contains_iff_mem, bne_iff_ne] at hkept
      exact ⟨⟨part, hpart, byValue, hleads⟩, hkept.1.1, hkept.1.2, hkept.2⟩
  · rintro ⟨⟨part, hpart, byValue, hleads⟩, hnamed, hnode, hne⟩
    refine .inr ⟨(y, byValue), List.mem_filter.mpr ⟨?_, ?_⟩, rfl⟩
    · exact mem_visits_of_leads hparts hpart hleads
    · simp [hnamed, hnode, hne]

end Graph

namespace Emission

open Components (targets components)

/-! ## 3. The least that is ready -/

section

variable {key : Handle → String} {needs : Handle → List Handle} {a b c : Handle}

/-- Keys are compared first, handles where keys are equal. -/
theorem le_iff : le key a b = true ↔ toLex (key a, a) ≤ toLex (key b, b) := by
  simp [le, Prod.Lex.toLex_le_toLex]

/-- The order is total. -/
theorem le_or_le (key : Handle → String) (a b : Handle) :
    le key a b = true ∨ le key b a = true := by
  rw [le_iff, le_iff]
  exact le_total _ _

/-- And tells declarations apart. -/
theorem eq_of_le (hab : le key a b = true) (hba : le key b a = true) : a = b := by
  have heq := le_antisymm (le_iff.mp hab) (le_iff.mp hba)
  exact congrArg (fun p => (ofLex p).2) heq

theorem le_of_least? {vs : List Handle} {v : Handle} (h : least? key vs = some v) :
    ∀ w ∈ vs, le key v w = true := by
  induction vs generalizing v with
  | nil => cases h
  | cons u vs ih =>
    rw [least?] at h
    have hself : ∀ x, le key x x = true := fun x => le_iff.mpr (le_refl _)
    split at h
    · rename_i hnone
      cases h
      rw [least?_eq_none.mp hnone]
      exact List.forall_mem_singleton.mpr (hself u)
    · rename_i x hx
      split at h
      · rename_i hux
        cases h
        refine List.forall_mem_cons.mpr ⟨hself u, fun w hw => le_iff.mpr ?_⟩
        exact le_trans (le_iff.mp hux) (le_iff.mp (ih hx w hw))
      · rename_i hux
        cases h
        exact List.forall_mem_cons.mpr ⟨(le_or_le key u v).resolve_left hux, ih hx⟩

theorem isReady_of_needs_eq_nil {remaining : List Handle} (h : needs a = []) :
    isReady needs remaining a = true := by
  simp [isReady, h]

/-- What embeds nothing stands before everything with a greater key. -/
theorem sublist_place_of_le (remaining : List Handle) (ha : a ∈ remaining) (hb : b ∈ remaining)
    (hneeds : needs a = []) (hne : a ≠ b) (hle : le key a b = true) :
    [a, b].Sublist (place key needs remaining) := by
  induction remaining using place_induction key needs with
  | stuck remaining h =>
    have hmem : a ∈ remaining.filter (isReady needs remaining) :=
      List.mem_filter.mpr ⟨ha, isReady_of_needs_eq_nil hneeds⟩
    rw [least?_eq_none.mp h] at hmem
    cases hmem
  | next remaining v h ih =>
    rw [place_of_next h]
    have hbv : b ≠ v := by
      rintro rfl
      have hmem : a ∈ remaining.filter (isReady needs remaining) :=
        List.mem_filter.mpr ⟨ha, isReady_of_needs_eq_nil hneeds⟩
      exact hne (eq_of_le hle (le_of_least? h a hmem))
    have hb' : b ∈ remaining.erase v := (List.mem_erase_of_ne hbv).mpr hb
    by_cases hav : a = v
    · subst hav
      refine List.Sublist.cons_cons _ (List.singleton_sublist.mpr ?_)
      exact (perm_place _).mem_iff.mpr hb'
    · exact List.Sublist.cons _ (ih ((List.mem_erase_of_ne hav).mpr ha) hb')

end

/-! ## 4. Mutual mentions -/

section

variable {key : Handle → String} {g : Graph} {instances : List Handle} {x y : Handle}

/-- One of the declarations mentions another one. -/
def MentionsAmong (g : Graph) (instances : List Handle) (x y : Handle) : Prop :=
  x ∈ instances ∧ y ∈ instances ∧ g.Mentions x y

/-- The components that an order is made of. -/
def componentsOf (key : Handle → String) (g : Graph) (instances : List Handle) :
    List (List Handle) :=
  let nodes := instances.mergeSort fun a b => key a ≤ key b
  components nodes (allEdges g nodes)

/-- Both are in one component of the order. -/
def Together (key : Handle → String) (g : Graph) (instances : List Handle) (x y : Handle) : Prop :=
  ∃ c ∈ componentsOf key g instances, x ∈ c ∧ y ∈ c

section

variable (key g) (hnodup : instances.Nodup)
include hnodup

theorem perm_componentsOf : (componentsOf key g instances).flatten.Perm instances := by
  have hsorted := List.mergeSort_perm instances fun a b => key a ≤ key b
  exact (perm_components (hsorted.nodup_iff.mpr hnodup)).trans hsorted

theorem exists_component (hx : x ∈ instances) : ∃ before c after,
    componentsOf key g instances = before ++ c :: after ∧ x ∈ c := by
  obtain ⟨c, hc, hxc⟩ :=
    List.mem_flatten.mp ((perm_componentsOf key g hnodup).mem_iff.mpr hx)
  obtain ⟨before, after, hsplit⟩ := List.append_of_mem hc
  exact ⟨before, c, after, hsplit, hxc⟩

end

/-- Of two declarations of one component the one that embeds nothing comes first, if its key is
less. -/
theorem Together.sublist (h : Together key g instances x y) (hnodup : instances.Nodup)
    (hvalue : ∀ z, ¬g.EmbedsDeclared instances x z) (hne : x ≠ y) (hle : le key x y = true) :
    [x, y].Sublist (order key g instances) := by
  obtain ⟨c, hc, hx, hy⟩ := h
  have hx' : x ∈ instances.mergeSort fun a b => key a ≤ key b := List.mem_mergeSort.mpr
    ((perm_componentsOf key g hnodup).mem_iff.mp (List.mem_flatten.mpr ⟨c, hc, hx⟩))
  have hneeds : embeds (allEdges g (instances.mergeSort fun a b => key a ≤ key b)) c x = [] := by
    refine List.eq_nil_iff_forall_not_mem.mpr fun z hz => hvalue z ?_
    rw [mem_embeds, get?_allEdges hx'] at hz
    rw [← embedsDeclared_mergeSort key]
    exact ⟨hx', hz.1⟩
  exact (sublist_place_of_le c hx hy hneeds hne hle).trans
    (List.sublist_flatten_of_mem (List.mem_map_of_mem hc))

section

variable (hparts : ∀ h, ∀ p ∈ (g.get h).parts, p.1 < g.count)
  (hnamed : ∀ h ∈ instances, (g.get h).isNamed = true)
include hparts hnamed

variable (key) in
/-- The targets of a declaration are those that it mentions. -/
theorem mem_targets_iff (hx : x ∈ instances) :
    y ∈ targets (allEdges g (instances.mergeSort fun a b => key a ≤ key b)) x ↔
      MentionsAmong g instances x y ∧ y ≠ x := by
  rw [targets_allEdges (List.mem_mergeSort.mpr hx), Graph.mem_edges_iff hparts,
    List.mem_mergeSort]
  constructor
  · rintro ⟨hxy, -, hy, hne⟩
    exact ⟨⟨hx, hy, hxy⟩, hne⟩
  · rintro ⟨⟨-, hy, hxy⟩, hne⟩
    exact ⟨hxy, hnamed y hy, hy, hne⟩

variable (key) in
/-- What declarations reach by their targets they reach by mentions. -/
theorem reach_iff (hx : x ∈ instances) :
    Components.Reach (targets (allEdges g (instances.mergeSort fun a b => key a ≤ key b))) x y ↔
      Relation.ReflTransGen (MentionsAmong g instances) x y := by
  constructor
  · intro hpath
    suffices y ∈ instances ∧ Relation.ReflTransGen (MentionsAmong g instances) x y from this.2
    induction hpath with
    | refl => exact ⟨hx, .refl⟩
    | tail _ hedge ih =>
      obtain ⟨hstep, -⟩ := (mem_targets_iff key hparts hnamed ih.1).mp hedge
      exact ⟨hstep.2.1, ih.2.tail hstep⟩
  · intro hpath
    induction hpath with
    | refl => exact .refl
    | @tail u w _ hstep ih =>
      by_cases hne : w = u
      · exact hne ▸ ih
      · exact ih.tail ((mem_targets_iff key hparts hnamed hstep.1).mpr ⟨hstep, hne⟩)

variable (hnodup : instances.Nodup)
include hnodup

/-- Declarations that mention each other, directly or not, are in one component. -/
theorem together_of_reflTransGen (hx : x ∈ instances) (hy : y ∈ instances)
    (hxy : Relation.ReflTransGen (MentionsAmong g instances) x y)
    (hyx : Relation.ReflTransGen (MentionsAmong g instances) y x) :
    Together key g instances x y := by
  obtain ⟨before, c, after, hsplit, hxc⟩ := exists_component key g hnodup hx
  have hprefix : before ++ [c] <+: componentsOf key g instances := ⟨after, by simp [hsplit]⟩
  have hyc := Components.components_closed _ _ hprefix (v := x) (w := y) (by simp [hxc])
    ((reach_iff key hparts hnamed hx).mpr hxy)
  rw [List.flatten_append, List.flatten_singleton, List.mem_append] at hyc
  rcases hyc with hbefore | hyc
  · -- then `x` would be in a component before its own
    have hprefix : before <+: componentsOf key g instances := ⟨c :: after, hsplit.symm⟩
    have hxbefore := Components.components_closed _ _ hprefix hbefore
      ((reach_iff key hparts hnamed hy).mpr hyx)
    have hapart := (perm_componentsOf key g hnodup).nodup_iff.mpr hnodup
    rw [hsplit, List.flatten_append, List.nodup_append] at hapart
    exact absurd rfl (hapart.2.2 x hxbefore x (by simp [hxc]))
  · exact ⟨c, hsplit ▸ List.mem_append_right _ List.mem_cons_self, hxc, hyc⟩

variable (key) in
/-- What a declaration mentions stands before it, or in its own component. -/
theorem sublist_order_or_together (hxy : MentionsAmong g instances x y) (hne : y ≠ x) :
    [y, x].Sublist (order key g instances) ∨ Together key g instances x y := by
  obtain ⟨before, c, after, hsplit, hxc⟩ := exists_component key g hnodup hxy.1
  have hprefix : before ++ [c] <+: componentsOf key g instances := ⟨after, by simp [hsplit]⟩
  have hmem := Components.components_ordered _ _ hprefix hxc
    ((mem_targets_iff key hparts hnamed hxy.1).mpr ⟨hxy, hne⟩)
  rw [List.flatten_append, List.flatten_singleton, List.mem_append] at hmem
  rcases hmem with hbefore | hyc
  · left
    let edges := allEdges g (instances.mergeSort fun a b => key a ≤ key b)
    have hy' := (perm_orderComponents key before edges).mem_iff.mpr hbefore
    have hx' : x ∈ orderComponent key edges c := (perm_place c).mem_iff.mpr hxc
    show [y, x].Sublist ((componentsOf key g instances).flatMap (orderComponent key edges))
    rw [hsplit, List.flatMap_append, List.flatMap_cons]
    exact (List.singleton_sublist.mpr hy').append
      (List.singleton_sublist.mpr (List.mem_append_left _ hx'))
  · exact .inr ⟨c, hsplit ▸ List.mem_append_right _ List.mem_cons_self, hxc, hyc⟩

/-- **Of two declarations that embed nothing, the one that is mentioned stands before the one
that mentions it**, except where it mentions back and its key is not less. -/
theorem sublist_order_iff (hx : ∀ z, ¬g.EmbedsDeclared instances x z)
    (hy : ∀ z, ¬g.EmbedsDeclared instances y z) (hxy : MentionsAmong g instances x y) :
    [y, x].Sublist (order key g instances) ↔
      ¬(le key x y = true ∧ Relation.TransGen (MentionsAmong g instances) y x) := by
  have hnodup' : (order key g instances).Nodup := (perm_order key g hnodup).nodup_iff.mpr hnodup
  constructor
  · rintro hsub ⟨hle, hback⟩
    by_cases hne : y = x
    · subst hne
      exact List.nodup_iff_sublist.mp hnodup' y hsub
    · have htogether : Together key g instances x y := together_of_reflTransGen hparts hnamed
        hnodup hxy.1 hxy.2.1 (.single hxy) hback.to_reflTransGen
      exact not_sublist_swap hnodup' hsub (htogether.sublist hnodup hx (Ne.symm hne) hle)
  · intro hnot
    by_cases hne : y = x
    · subst hne
      exact absurd ⟨le_iff.mpr (le_refl _), .single hxy⟩ hnot
    · rcases sublist_order_or_together key hparts hnamed hnodup hxy hne with
        hsub | ⟨c, hc, hxc, hyc⟩
      · exact hsub
      · have hback := (reach_iff key hparts hnamed hxy.2.1).mp
          (Components.components_strong _ _ hc hyc hxc)
        have hback := (Relation.reflTransGen_iff_eq_or_transGen.mp hback).resolve_left
          (Ne.symm hne)
        have hle : le key y x = true := (le_or_le key y x).resolve_right fun h => hnot ⟨h, hback⟩
        exact Together.sublist ⟨c, hc, hyc, hxc⟩ hnodup hy hne hle

end

end

end Emission

end NativeTypes
