/-
NativeTypes.Proofs.Order.Edges — the edges of a declaration see exactly what
the graph says.

A way leads from an instance to another one through instances without names
(`Graph.Way`). The walk carries a flag along each way: it meets a step with
the flag set exactly if some way to it is by value throughout, and with some
flag exactly if there is a way at all (`mem_visits_steps_iff`,
`mem_visits_steps_true_iff`). The fold keeps one edge for each target and
forgets no flag that was set (`get?_foldl_addEdge`), so neither the order of
meeting nor what is met twice matters. Nothing is needed about the graph:
an instance that is not in it has no parts and no name.
-/
import NativeTypes.Proofs.Order.References

namespace NativeTypes.Graph

variable {g : Graph} {nodes : List Handle} {x y u : Handle}

/-! ## 1. Ways -/

/-- `y` is a part of `x`, embedded or referred to. -/
def DependsOn (g : Graph) (x y : Handle) : Prop :=
  y ∈ (g.get x).valueParts ∨ y ∈ (g.get x).referenceParts

/-- One or more steps lead from `x` to `y`, and no instance with a name lies between. -/
def Way (g : Graph) (step : Handle → Handle → Prop) (x y : Handle) : Prop :=
  ∃ u, Relation.ReflTransGen (fun a b => step a b ∧ (g.get b).isNamed = false) x u ∧ step u y

theorem dependsOn_iff : g.DependsOn x y ↔ ∃ byValue, (y, byValue) ∈ (g.get x).parts := by
  constructor
  · rintro (hvalue | href)
    · exact ⟨true, Instance.mem_parts_of_valueParts hvalue⟩
    · exact ⟨false, Instance.mem_parts_of_referenceParts href⟩
  · rintro ⟨byValue, hpart⟩
    exact (Instance.mem_parts_iff.mp hpart).imp And.right And.right

theorem embeds_iff : g.Embeds x y ↔ (y, true) ∈ (g.get x).parts := by
  simp [Embeds, Instance.mem_parts_iff]

/-- An instance with a name is in the graph. -/
theorem lt_count_of_isNamed (h : (g.get x).isNamed = true) : x < g.count := by
  by_contra hx
  rw [get_of_count_le (Nat.le_of_not_lt hx)] at h
  cases h

theorem Way.single {step : Handle → Handle → Prop} (h : step x y) : g.Way step x y :=
  ⟨x, .refl, h⟩

/-- A way goes on behind an instance without a name. -/
theorem Way.tail {step : Handle → Handle → Prop} (h : g.Way step x u)
    (hu : (g.get u).isNamed = false) (hstep : step u y) : g.Way step x y := by
  obtain ⟨v, hpath, hlast⟩ := h
  exact ⟨u, hpath.tail ⟨hlast, hu⟩, hstep⟩

/-- Induction along a way. -/
theorem Way.induction {step : Handle → Handle → Prop} {motive : Handle → Prop}
    (h : g.Way step x y) (first : ∀ v, step x v → motive v)
    (next : ∀ v w, motive v → (g.get v).isNamed = false → step v w → motive w) : motive y := by
  obtain ⟨u, hpath, hlast⟩ := h
  induction hpath generalizing y with
  | refl => exact first y hlast
  | tail _ hstep ih => exact next _ y (ih hstep.1) hstep.2 hlast

/-! ## 2. What the walk meets -/

/-- A step goes on to a part, and only where it is met without a name. -/
theorem exists_part_of_mem_steps {s t : Handle × Bool} (h : t ∈ g.steps s) :
    (g.get s.1).isNamed = false ∧
      ∃ part ∈ (g.get s.1).parts, t = (part.1, s.2 && part.2) := by
  unfold steps at h
  split at h
  · cases h
  · rename_i hnamed
    obtain ⟨part, hpart, rfl⟩ := List.mem_map.mp h
    exact ⟨by simpa using hnamed, part, hpart, rfl⟩

/-- What is met lies at the end of a way, and of one by value if the flag is set. -/
theorem way_of_leads {part : Handle × Bool} (hpart : part ∈ (g.get x).parts)
    {step : Handle × Bool} (h : g.Leads part step) :
    g.Way g.DependsOn x step.1 ∧ (step.2 = true → g.Way g.Embeds x step.1) := by
  have hstep : ∀ a p, p ∈ (g.get a).parts →
      g.DependsOn a p.1 ∧ (p.2 = true → g.Embeds a p.1) := by
    rintro a ⟨v, flag⟩ hp
    refine ⟨dependsOn_iff.mpr ⟨flag, hp⟩, ?_⟩
    rintro rfl
    exact embeds_iff.mpr hp
  induction h with
  | refl =>
    obtain ⟨hdepends, hembeds⟩ := hstep x part hpart
    exact ⟨.single hdepends, fun hflag => .single (hembeds hflag)⟩
  | @tail s t _ hnext ih =>
    obtain ⟨hunnamed, p, hp, rfl⟩ := exists_part_of_mem_steps hnext
    obtain ⟨hdepends, hembeds⟩ := hstep s.1 p hp
    refine ⟨ih.1.tail hunnamed hdepends, fun hflag => ?_⟩
    obtain ⟨hbefore, hlast⟩ := Bool.and_eq_true_iff.mp hflag
    exact (ih.2 hbefore).tail hunnamed (hembeds hlast)

/-- A part of what is met without a name is met too, if it is in the graph. -/
theorem mem_visits_of_mem_parts {byValue : Bool} (hunnamed : (g.get u).isNamed = false)
    (hmet : (u, byValue) ∈ visits g.steps g.allSteps (g.get x).parts) {part : Handle × Bool}
    (hpart : part ∈ (g.get u).parts) (hlt : part.1 < g.count) :
    (part.1, byValue && part.2) ∈ visits g.steps g.allSteps (g.get x).parts :=
  mem_visits_of_mem_next _ _ _ hmet (mem_steps_of_mem_parts hunnamed hpart) (mem_allSteps hlt _)

variable (hy : y < g.count)
include hy

/-- A step is met, with one flag or the other, exactly if there is a way to it. -/
theorem mem_visits_steps_iff :
    (∃ byValue, (y, byValue) ∈ visits g.steps g.allSteps (g.get x).parts) ↔
      g.Way g.DependsOn x y := by
  constructor
  · rintro ⟨byValue, hmet⟩
    obtain ⟨part, hpart, hleads⟩ := exists_next_of_mem_visits hmet
    exact (way_of_leads hpart hleads).1
  · intro hway
    refine hway.induction (motive := fun v => v < g.count →
      ∃ byValue, (v, byValue) ∈ visits g.steps g.allSteps (g.get x).parts) ?_ ?_ hy
    · intro v hstep hv
      obtain ⟨byValue, hpart⟩ := dependsOn_iff.mp hstep
      exact ⟨byValue, mem_visits_of_mem_stack _ _ _ hpart (mem_allSteps hv _)⟩
    · intro v w ih hunnamed hstep hw
      obtain ⟨flag, hpart⟩ := dependsOn_iff.mp hstep
      obtain ⟨byValue, hmet⟩ := ih (lt_count_of_parts hpart)
      exact ⟨_, mem_visits_of_mem_parts hunnamed hmet hpart hw⟩

/-- A step is met with the flag set exactly if there is a way by value to it. -/
theorem mem_visits_steps_true_iff :
    (y, true) ∈ visits g.steps g.allSteps (g.get x).parts ↔ g.Way g.Embeds x y := by
  constructor
  · intro hmet
    obtain ⟨part, hpart, hleads⟩ := exists_next_of_mem_visits hmet
    exact (way_of_leads hpart hleads).2 rfl
  · intro hway
    refine hway.induction (motive := fun v => v < g.count →
      (v, true) ∈ visits g.steps g.allSteps (g.get x).parts) ?_ ?_ hy
    · intro v hstep hv
      exact mem_visits_of_mem_stack _ _ _ (embeds_iff.mp hstep) (mem_allSteps hv _)
    · intro v w ih hunnamed hstep hw
      have hpart := embeds_iff.mp hstep
      exact mem_visits_of_mem_parts hunnamed (ih (lt_count_of_parts hpart)) hpart hw

omit hy

/-! ## 3. One edge for each target -/

theorem nodup_foldl_addEdge {edges : Assoc Handle Bool} (hedges : (edges.map Prod.fst).Nodup)
    (steps : List (Handle × Bool)) : ((steps.foldl addEdge edges).map Prod.fst).Nodup := by
  induction steps generalizing edges with
  | nil => exact hedges
  | cons step steps ih => exact ih (Assoc.nodup_put hedges _ _)

/-- The flag of an edge is set if it was before or if one of the steps has it set. -/
theorem get?_foldl_addEdge {edges : Assoc Handle Bool} {steps : List (Handle × Bool)} :
    (steps.foldl addEdge edges).get? y = some true ↔
      edges.get? y = some true ∨ (y, true) ∈ steps := by
  induction steps generalizing edges with
  | nil => simp
  | cons step steps ih =>
    obtain ⟨v, byValue⟩ := step
    rw [List.foldl_cons, ih, addEdge, Assoc.get?_put]
    by_cases hv : v = y
    · subst hv
      rw [if_pos rfl]
      cases hget : edges.get? v with
      | none => cases byValue <;> simp
      | some old => cases byValue <;> cases old <;> simp
    · have hne : y ≠ v := Ne.symm hv
      simp [hv, hne]

/-- What was met of a declaration's targets. -/
theorem mem_kept_iff {byValue : Bool} :
    (y, byValue) ∈ ((visits g.steps g.allSteps (g.get x).parts).filter fun step =>
      (g.get step.1).isNamed && nodes.contains step.1 && step.1 != x) ↔
      (y, byValue) ∈ visits g.steps g.allSteps (g.get x).parts ∧
        (g.get y).isNamed = true ∧ y ∈ nodes ∧ y ≠ x := by
  simp [List.mem_filter, and_assoc]

theorem nodup_declarationEdges (g : Graph) (nodes : List Handle) (x : Handle) :
    ((g.declarationEdges nodes x).map Prod.fst).Nodup := by
  have hempty : (([] : Assoc Handle Bool).map Prod.fst).Nodup := List.nodup_nil
  exact nodup_foldl_addEdge hempty _

/-- A target is listed if there is a way to it. -/
theorem mem_keys_declarationEdges_iff :
    y ∈ (g.declarationEdges nodes x).map Prod.fst ↔
      (g.get y).isNamed = true ∧ y ∈ nodes ∧ y ≠ x ∧ g.Way g.DependsOn x y := by
  unfold declarationEdges
  rw [mem_foldl_addEdge_iff]
  constructor
  · rintro (hnil | hstep)
    · cases hnil
    · obtain ⟨⟨v, byValue⟩, hkept, rfl⟩ := List.mem_map.mp hstep
      obtain ⟨hmet, hnamed, hnode, hne⟩ := mem_kept_iff.mp hkept
      exact ⟨hnamed, hnode, hne,
        (mem_visits_steps_iff (lt_count_of_isNamed hnamed)).mp ⟨byValue, hmet⟩⟩
  · rintro ⟨hnamed, hnode, hne, hway⟩
    obtain ⟨byValue, hmet⟩ := (mem_visits_steps_iff (lt_count_of_isNamed hnamed)).mpr hway
    exact .inr (List.mem_map.mpr ⟨_, mem_kept_iff.mpr ⟨hmet, hnamed, hnode, hne⟩, rfl⟩)

/-- A target is listed by value if there is a way by value to it. -/
theorem get?_declarationEdges_iff :
    (g.declarationEdges nodes x).get? y = some true ↔
      (g.get y).isNamed = true ∧ y ∈ nodes ∧ y ≠ x ∧ g.Way g.Embeds x y := by
  unfold declarationEdges
  rw [get?_foldl_addEdge, mem_kept_iff]
  constructor
  · rintro (hnil | ⟨hmet, hnamed, hnode, hne⟩)
    · cases hnil
    · exact ⟨hnamed, hnode, hne,
        (mem_visits_steps_true_iff (lt_count_of_isNamed hnamed)).mp hmet⟩
  · rintro ⟨hnamed, hnode, hne, hway⟩
    have hmet := (mem_visits_steps_true_iff (lt_count_of_isNamed hnamed)).mpr hway
    exact .inr ⟨hmet, hnamed, hnode, hne⟩

/-- **The edges of a declaration see exactly what the graph says**: each target stands once, it is
a declaration that a way leads to, and its flag says whether there is one by value. -/
theorem declarationEdges_correct (g : Graph) (nodes : List Handle) (x : Handle) :
    ((g.declarationEdges nodes x).map Prod.fst).Nodup ∧
      ∀ y byValue, (y, byValue) ∈ g.declarationEdges nodes x ↔
        ((g.get y).isNamed = true ∧ y ∈ nodes ∧ y ≠ x ∧ g.Way g.DependsOn x y) ∧
          (byValue = true ↔ g.Way g.Embeds x y) := by
  have hnodup := nodup_declarationEdges g nodes x
  refine ⟨hnodup, fun y byValue => ?_⟩
  -- as targets stand once, the flag that is looked up is the one that is listed
  have hflag : ∀ flag, (y, flag) ∈ g.declarationEdges nodes x →
      (flag = true ↔ g.Way g.Embeds x y) := by
    intro flag hmem
    obtain ⟨hnamed, hnode, hne, -⟩ :=
      mem_keys_declarationEdges_iff.mp (List.mem_map.mpr ⟨_, hmem, rfl⟩)
    have hget := Assoc.get?_of_mem hnodup hmem
    constructor
    · rintro rfl
      exact (get?_declarationEdges_iff.mp hget).2.2.2
    · intro hway
      have hset := get?_declarationEdges_iff.mpr ⟨hnamed, hnode, hne, hway⟩
      exact Option.some.inj (hget.symm.trans hset)
  constructor
  · intro hmem
    exact ⟨mem_keys_declarationEdges_iff.mp (List.mem_map.mpr ⟨_, hmem, rfl⟩), hflag _ hmem⟩
  · rintro ⟨htarget, hbyValue⟩
    obtain ⟨⟨v, flag⟩, hmem, rfl⟩ :=
      List.mem_map.mp (mem_keys_declarationEdges_iff.mpr htarget)
    have hsame : flag = byValue := by rw [Bool.eq_iff_iff, hflag flag hmem, hbyValue]
    exact hsame ▸ hmem

end NativeTypes.Graph
