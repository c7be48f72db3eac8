/-
NativeTypes.Proofs.Order.Emission — declarations are written in a correct
order.

Inside a component `place` writes a node when nothing that it embeds remains;
without a cycle of embedding there always is such a node, so what is embedded
stands before what embeds it (`sublist_place`). Between components the order is
that of the components, which stand after all that they have edges to. Both
together are `order_correct`. What is written is a permutation of what is
given, and as it is sorted by key first, the order in which it is given does
not matter.

A component is strongly connected, so inside of it the order of the search says
nothing. But its edges are of two kinds, and the cycles go through references:
by value alone a component has none, or the types would be of no finite size.
`place` looks at the edges by value only, and where they do form a cycle it is
`Stuck` and writes the rest by key.

That one stands before another is said by a sublist of two elements. Being a
sublist is kept when lists are put together from pieces, which is what has to
be shown here, and it needs no positions.
-/
import NativeTypes.Order.Emission
import NativeTypes.Proofs.Order.Components
import NativeTypes.Proofs.Text.Sorted

namespace NativeTypes

/-! ## 1. Edges between declarations -/

namespace Graph

variable {g : Graph} {nodes nodes' : List Handle} {x y : Handle}

/-- Whatever has an edge was met by a step. -/
theorem mem_foldl_addEdge (edges : Assoc Handle Bool) (steps : List (Handle × Bool))
    (hy : y ∈ (steps.foldl addEdge edges).map Prod.fst) :
    y ∈ edges.map Prod.fst ∨ y ∈ steps.map Prod.fst := by
  induction steps generalizing edges with
  | nil => exact Or.inl hy
  | cons step steps ih =>
    rcases ih (addEdge edges step) hy with hedge | hstep
    · rw [Assoc.mem_keys_iff, addEdge, Assoc.get?_put] at hedge
      split at hedge
      · rename_i he
        exact Or.inr (by simp [he])
      · exact Or.inl ((Assoc.mem_keys_iff _ _).mpr hedge)
    · exact Or.inr (List.mem_cons_of_mem _ hstep)

/-- Targets of edges are among the nodes, and no node is its own. -/
theorem mem_declarationEdges (hy : y ∈ (g.declarationEdges nodes x).map Prod.fst) :
    y ∈ nodes ∧ y ≠ x := by
  rcases mem_foldl_addEdge [] _ hy with hnil | hstep
  · cases hnil
  · obtain ⟨step, hmem, rfl⟩ := List.mem_map.mp hstep
    have hkept := (List.mem_filter.mp hmem).2
    simp only [Bool.and_eq_true, List.contains_iff_mem, bne_iff_ne] at hkept
    exact ⟨hkept.1.2, hkept.2⟩

/-- Only the set of nodes matters. -/
theorem declarationEdges_congr (h : ∀ v, v ∈ nodes ↔ v ∈ nodes') (x : Handle) :
    g.declarationEdges nodes x = g.declarationEdges nodes' x := by
  unfold declarationEdges
  have hsame : ∀ v, nodes.contains v = nodes'.contains v := fun v => by
    rw [Bool.eq_iff_iff]
    simpa using h v
  simp only [hsame]

/-- `x` embeds the declaration `y` by value. -/
def EmbedsDeclared (g : Graph) (nodes : List Handle) (x y : Handle) : Prop :=
  x ∈ nodes ∧ (y, true) ∈ g.declarationEdges nodes x

end Graph

namespace Emission

open Components (targets components)

/-! ## 2. Inside a component -/

section

variable {key : Handle → String} {needs : Handle → List Handle}

theorem least?_eq_none {vs : List Handle} : least? key vs = none ↔ vs = [] := by
  cases vs with
  | nil => simp [least?]
  | cons v vs =>
    rw [least?]
    split
    · simp
    · simp

theorem mem_of_least? {vs : List Handle} {v : Handle} (h : least? key vs = some v) : v ∈ vs := by
  induction vs generalizing v with
  | nil => cases h
  | cons u vs ih =>
    rw [least?] at h
    split at h
    · cases h
      exact List.mem_cons_self
    · rename_i w hw
      cases h
      split
      · exact List.mem_cons_self
      · exact List.mem_cons_of_mem _ (ih hw)

/-- Nothing is ready. -/
def Stuck (key : Handle → String) (needs : Handle → List Handle) (remaining : List Handle) : Prop :=
  least? key (remaining.filter (isReady needs remaining)) = none

/-- `v` is ready, and the least that is. -/
def Next (key : Handle → String) (needs : Handle → List Handle) (remaining : List Handle)
    (v : Handle) : Prop :=
  least? key (remaining.filter (isReady needs remaining)) = some v

theorem Next.mem {remaining : List Handle} {v : Handle} (h : Next key needs remaining v) :
    v ∈ remaining ∧ ∀ w ∈ needs v, w ∉ remaining := by
  obtain ⟨hmem, hready⟩ := List.mem_filter.mp (mem_of_least? h)
  refine ⟨hmem, fun w hw hr => ?_⟩
  have hw' := List.all_eq_true.mp hready w hw
  simp [hr] at hw'

/-- If nothing is ready the rest is written by key. -/
theorem place_of_stuck {remaining : List Handle} (h : Stuck key needs remaining) :
    place key needs remaining = remaining.mergeSort fun a b => key a ≤ key b := by
  rw [place]
  split
  · rfl
  · rename_i v hv
    rw [Stuck, hv] at h
    cases h

/-- Else the least that is ready is written first. -/
theorem place_of_next {remaining : List Handle} {v : Handle} (h : Next key needs remaining v) :
    place key needs remaining = v :: place key needs (remaining.erase v) := by
  rw [place]
  split
  · rename_i hnone
    rw [Next, hnone] at h
    cases h
  · rename_i w hw
    rw [Next, hw] at h
    cases h
    have hnext : Next key needs remaining v := hw
    rw [if_pos hnext.mem.1]

variable (key needs) in
/-- Induction along the nodes that are taken one after the other. -/
theorem place_induction {motive : List Handle → Prop}
    (stuck : ∀ remaining, Stuck key needs remaining → motive remaining)
    (next : ∀ remaining v, Next key needs remaining v → motive (remaining.erase v) →
      motive remaining) (remaining : List Handle) : motive remaining := by
  induction hn : remaining.length using Nat.strongRecOn generalizing remaining with
  | ind n ih =>
    cases h : least? key (remaining.filter (isReady needs remaining)) with
    | none => exact stuck remaining h
    | some v =>
      have hmem := (Next.mem h).1
      have hlen := List.length_erase_of_mem hmem
      have hpos := List.length_pos_of_mem hmem
      exact next remaining v h (ih _ (by omega) _ rfl)

/-- Each node is written once. -/
theorem perm_place (remaining : List Handle) : (place key needs remaining).Perm remaining := by
  induction remaining using place_induction key needs with
  | stuck remaining h =>
    rw [place_of_stuck h]
    exact List.mergeSort_perm _ _
  | next remaining v h ih =>
    rw [place_of_next h]
    exact (ih.cons v).trans (List.perm_cons_erase h.mem.1).symm

/-- A relation without cycles has a least element in every list that is not empty. -/
theorem exists_minimal {α : Type} {r : α → α → Prop} {l : List α} (hl : l ≠ [])
    (hr : ∀ x ∈ l, ¬Relation.TransGen r x x) : ∃ x ∈ l, ∀ y ∈ l, ¬Relation.TransGen r y x := by
  induction l with
  | nil => exact absurd rfl hl
  | cons a l ih =>
    have ha := hr a List.mem_cons_self
    by_cases hnil : l = []
    · subst hnil
      exact ⟨a, List.mem_cons_self, fun y hy => List.mem_singleton.mp hy ▸ ha⟩
    · obtain ⟨x, hx, hmin⟩ := ih hnil fun y hy => hr y (List.mem_cons_of_mem _ hy)
      by_cases hax : Relation.TransGen r a x
      · -- then nothing is below `a`, or it would be below `x`
        refine ⟨a, List.mem_cons_self, fun y hy hya => ?_⟩
        rcases List.mem_cons.mp hy with rfl | hy
        · exact ha hya
        · exact hmin y hy (hya.trans hax)
      · refine ⟨x, List.mem_cons_of_mem _ hx, fun y hy hyx => ?_⟩
        rcases List.mem_cons.mp hy with rfl | hy
        · exact hax hyx
        · exact hmin y hy hyx

/-- Without cycles nothing is stuck as long as something remains. -/
theorem Stuck.eq_nil {remaining : List Handle} (h : Stuck key needs remaining)
    (hacyclic : ∀ x ∈ remaining, ¬Relation.TransGen (fun y x => y ∈ needs x) x x) :
    remaining = [] := by
  by_contra hne
  obtain ⟨x, hx, hmin⟩ := exists_minimal hne hacyclic
  have hready : isReady needs remaining x = true := by
    refine List.all_eq_true.mpr fun y hy => ?_
    have hnot : y ∉ remaining := fun hmem => hmin y hmem (.single hy)
    simpa using hnot
  have hmem : x ∈ remaining.filter (isReady needs remaining) := List.mem_filter.mpr ⟨hx, hready⟩
  rw [least?_eq_none.mp h] at hmem
  cases hmem

/-- **Inside a component what is embedded comes first**, unless embedding goes in a circle. -/
theorem sublist_place (remaining : List Handle)
    (hacyclic : ∀ x ∈ remaining, ¬Relation.TransGen (fun y x => y ∈ needs x) x x) {x y : Handle}
    (hx : x ∈ remaining) (hy : y ∈ remaining) (hneeds : y ∈ needs x) :
    [y, x].Sublist (place key needs remaining) := by
  induction remaining using place_induction key needs with
  | stuck remaining h =>
    rw [h.eq_nil hacyclic] at hx
    cases hx
  | next remaining v h ih =>
    rw [place_of_next h]
    have hxv : x ≠ v := by
      rintro rfl
      exact h.mem.2 y hneeds hy
    have hx' : x ∈ remaining.erase v := (List.mem_erase_of_ne hxv).mpr hx
    by_cases hyv : y = v
    · subst hyv
      refine List.Sublist.cons_cons _ (List.singleton_sublist.mpr ?_)
      exact (perm_place _).mem_iff.mpr hx'
    · refine List.Sublist.cons _ (ih ?_ hx' ((List.mem_erase_of_ne hyv).mpr hy))
      exact fun u hu => hacyclic u (List.mem_of_mem_erase hu)

end

/-! ## 3. All declarations -/

section

variable {key : Handle → String} {g : Graph} {nodes instances : List Handle} {x y : Handle}

/-- The edges of a node, from the table of all of them. -/
theorem get?_allEdges {v : Handle} (hv : v ∈ nodes) :
    (allEdges g nodes).get? v = some (g.declarationEdges nodes v) := by
  have hlookup : ∀ l : List Handle, v ∈ l →
      Assoc.get? (l.map fun u => (u, g.declarationEdges nodes u)) v =
        some (g.declarationEdges nodes v) := by
    intro l hl
    induction l with
    | nil => cases hl
    | cons u l ih =>
      rw [List.map_cons, Assoc.get?]
      split
      · rename_i he
        rw [he]
      · rename_i hne
        exact ih ((List.mem_cons.mp hl).resolve_left (Ne.symm hne))
  exact hlookup nodes hv

theorem targets_allEdges {v : Handle} (hv : v ∈ nodes) :
    targets (allEdges g nodes) v = (g.declarationEdges nodes v).map Prod.fst := by
  rw [targets, get?_allEdges hv]
  rfl

/-- The components partition the declarations. -/
theorem perm_components (hnodup : nodes.Nodup) :
    (components nodes (allEdges g nodes)).flatten.Perm nodes := by
  refine Components.perm_flatten_components hnodup fun v hv w hw => ?_
  rw [targets_allEdges hv] at hw
  exact (Graph.mem_declarationEdges hw).1

/-- What a member of a component embeds. -/
theorem mem_embeds {edges : Assoc Handle (Assoc Handle Bool)} {members : List Handle} :
    y ∈ embeds edges members x ↔
      (y, true) ∈ (edges.get? x).getD [] ∧ y ∈ members ∧ y ≠ x := by
  simp [embeds, and_assoc]

variable (key) in
/-- Ordering inside components keeps them together. -/
theorem perm_orderComponents (cs : List (List Handle))
    (edges : Assoc Handle (Assoc Handle Bool)) :
    (cs.flatMap (orderComponent key edges)).Perm cs.flatten := by
  induction cs with
  | nil => exact List.Perm.nil
  | cons c cs ih =>
    rw [List.flatMap_cons, List.flatten_cons]
    exact (perm_place c).append ih

/-- Unless declarations embed each other in circles, those of a component do not. -/
theorem acyclic_component (hnodup : nodes.Nodup)
    (hacyclic : ∀ v, ¬Relation.TransGen (g.EmbedsDeclared nodes) v v) {c : List Handle}
    (hc : c ∈ components nodes (allEdges g nodes)) :
    ∀ u ∈ c, ¬Relation.TransGen (fun w u => w ∈ embeds (allEdges g nodes) c u) u u := by
  have hsub : ∀ u ∈ c, ∀ w ∈ embeds (allEdges g nodes) c u, g.EmbedsDeclared nodes u w := by
    intro u hu w hw
    have hu' : u ∈ nodes := (perm_components (g := g) hnodup).mem_iff.mp
      (List.mem_flatten.mpr ⟨c, hc, hu⟩)
    have hw' := (mem_embeds.mp hw).1
    rw [get?_allEdges hu'] at hw'
    exact ⟨hu', hw'⟩
  have hpath : ∀ u w, Relation.TransGen
      (fun w u => w ∈ embeds (allEdges g nodes) c u) w u → u ∈ c →
        Relation.TransGen (g.EmbedsDeclared nodes) u w := by
    intro u w hstep
    induction hstep with
    | single hw => exact fun hu => .single (hsub _ hu _ hw)
    | tail _ hw ih =>
      exact fun hu => .head (hsub _ hu _ hw) (ih (mem_embeds.mp hw).2.1)
  exact fun u hu hcycle => hacyclic u (hpath u u hcycle hu)

/-- Of two declarations in the order of components, the one that is embedded comes first. -/
theorem sublist_orderComponents (hnodup : nodes.Nodup)
    (hacyclic : ∀ v, ¬Relation.TransGen (g.EmbedsDeclared nodes) v v)
    (hedge : g.EmbedsDeclared nodes x y) :
    [y, x].Sublist ((components nodes (allEdges g nodes)).flatMap
      (orderComponent key (allEdges g nodes))) := by
  obtain ⟨hx, hxy⟩ := hedge
  have htarget : y ∈ targets (allEdges g nodes) x := by
    rw [targets_allEdges hx]
    exact List.mem_map.mpr ⟨_, hxy, rfl⟩
  obtain ⟨c, hc, hxc⟩ := List.mem_flatten.mp ((perm_components (g := g) hnodup).mem_iff.mpr hx)
  obtain ⟨before, after, hsplit⟩ := List.append_of_mem hc
  have hprefix : before ++ [c] <+: components nodes (allEdges g nodes) := by
    rw [hsplit]
    exact ⟨after, by simp⟩
  have hy := Components.components_ordered nodes (allEdges g nodes) hprefix hxc htarget
  rw [hsplit, List.flatMap_append, List.flatMap_cons]
  rw [List.flatten_append, List.flatten_singleton, List.mem_append] at hy
  rcases hy with hbefore | hyc
  · -- the component of what is embedded stands before
    have hy' := (perm_orderComponents key before (allEdges g nodes)).mem_iff.mpr hbefore
    have hx' : x ∈ orderComponent key (allEdges g nodes) c := (perm_place c).mem_iff.mpr hxc
    exact (List.singleton_sublist.mpr hy').append
      (List.singleton_sublist.mpr (List.mem_append_left _ hx'))
  · refine List.Sublist.trans ?_ (List.sublist_append_right _ _)
    refine List.Sublist.trans ?_ (List.sublist_append_left _ _)
    refine sublist_place c (acyclic_component hnodup hacyclic hc) hxc hyc ?_
    rw [mem_embeds, get?_allEdges hx]
    exact ⟨hxy, hyc, (Graph.mem_declarationEdges (List.mem_map.mpr ⟨_, hxy, rfl⟩)).2⟩

/-- Each declaration is written once. -/
theorem perm_order (key : Handle → String) (g : Graph) {instances : List Handle}
    (hnodup : instances.Nodup) : (order key g instances).Perm instances := by
  have hsorted : (instances.mergeSort fun a b => key a ≤ key b).Perm instances :=
    List.mergeSort_perm _ _
  refine (perm_orderComponents _ _ _).trans ((perm_components ?_).trans hsorted)
  exact hsorted.nodup_iff.mpr hnodup

/-- The order in which instances are given does not change what embeds what. -/
theorem embedsDeclared_mergeSort (key : Handle → String) (g : Graph) (instances : List Handle) :
    g.EmbedsDeclared (instances.mergeSort fun a b => key a ≤ key b) =
      g.EmbedsDeclared instances := by
  have hsorted : (instances.mergeSort fun a b => key a ≤ key b).Perm instances :=
    List.mergeSort_perm _ _
  funext u w
  unfold Graph.EmbedsDeclared
  rw [hsorted.mem_iff, Graph.declarationEdges_congr fun v => hsorted.mem_iff]

/-- **The order of declarations is correct**: it is a permutation that does not depend on the
order of what is given, and unless declarations embed each other in a circle, each of them stands
after all that it embeds by value. -/
theorem order_correct (key : Handle → String) (g : Graph) (instances : List Handle)
    (hnodup : instances.Nodup)
    (hkey : ∀ a ∈ instances, ∀ b ∈ instances, key a = key b → a = b) :
    (order key g instances).Perm instances ∧
      (∀ others, others.Perm instances → order key g others = order key g instances) ∧
      ((∀ v, ¬Relation.TransGen (g.EmbedsDeclared instances) v v) →
        ∀ x y, g.EmbedsDeclared instances x y → [y, x].Sublist (order key g instances)) := by
  have hsorted : (instances.mergeSort fun a b => key a ≤ key b).Perm instances :=
    List.mergeSort_perm _ _
  have hnodup' := hsorted.nodup_iff.mpr hnodup
  refine ⟨perm_order key g hnodup, fun others hperm => ?_, fun hacyclic x y hedge => ?_⟩
  · unfold order
    rw [mergeSort_eq_of_perm hperm fun a ha b hb =>
      hkey a (hperm.mem_iff.mp ha) b (hperm.mem_iff.mp hb)]
  · have hsame := embedsDeclared_mergeSort key g instances
    exact sublist_orderComponents hnodup' (hsame ▸ hacyclic) (hsame ▸ hedge)

end

/-- The struct `A` embeds the struct `B`, which points back at it. -/
def backPointer : Graph :=
  ⟨#[.aggregate { name := "A", fields := [⟨"b", 1, 0, none, none, false⟩] },
     .aggregate { name := "B", fields := [⟨"a", 2, 0, none, none, false⟩] },
     .pointer 0 8]⟩

/-- Both are in one component, and `B` comes first. -/
theorem order_backPointer : backPointer.EmbedsDeclared [0, 1] 0 1 ∧
    [1, 0].Sublist (order (fun h => if h = 0 then "A" else "B") backPointer [0, 1]) := by
  have hedges : backPointer.declarationEdges [0, 1] 0 = [(1, true)] ∧
      backPointer.declarationEdges [0, 1] 1 = [(0, false)] := ⟨by cbv, by cbv⟩
  have honly : ∀ u w, backPointer.EmbedsDeclared [0, 1] u w → u = 0 ∧ w = 1 := by
    rintro u w ⟨hu, hw⟩
    rcases List.mem_cons.mp hu with rfl | hu
    · simpa [hedges.1] using hw
    · rw [List.mem_singleton.mp hu, hedges.2] at hw
      simp at hw
  have hacyclic : ∀ v, ¬Relation.TransGen (backPointer.EmbedsDeclared [0, 1]) v v := by
    intro v hcycle
    obtain ⟨u, hvu, -⟩ := Relation.TransGen.head'_iff.mp hcycle
    obtain ⟨w, -, hwv⟩ := Relation.TransGen.tail'_iff.mp hcycle
    have hv := (honly v u hvu).1
    have hv' := (honly w v hwv).2
    rw [hv] at hv'
    cases hv'
  have hedge : backPointer.EmbedsDeclared [0, 1] 0 1 := ⟨by simp, by simp [hedges.1]⟩
  exact ⟨hedge, (order_correct _ backPointer [0, 1] (by decide) (by decide)).2.2 hacyclic 0 1
    hedge⟩

end Emission

end NativeTypes
