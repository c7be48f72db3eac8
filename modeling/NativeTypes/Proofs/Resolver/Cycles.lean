/-
NativeTypes.Proofs.Resolver.Cycles — cycles by value are found, all of them
and nothing else.

A report of a cycle lists a ring of the shapes that were placed, and what is
marked for a cycle is on a reported ring (soundness). An aggregate on a
cycle of the shapes is invalid or embeds something invalid, so it is never
selected for a declaration (completeness). The reason for the latter is
short: aggregates that are valid all the way down follow their shapes, so a
cycle of shapes through such aggregates would be one of recorded parts, and
descending along those ends.
-/
import NativeTypes.Export.Run
import NativeTypes.Proofs.Instance.Walk
import NativeTypes.Proofs.Resolver.Settled

namespace NativeTypes.Resolver

variable {σ : Type} {s : State σ} {module : String} {task : Task σ}

/-! ## 1. Reasons -/

/-- The first letter of a text that begins with another text. -/
theorem head?_toList_append {first rest : String} {c : Char}
    (h : first.toList.head? = some c) : (first ++ rest).toList.head? = some c := by
  rw [String.toList_append, List.head?_append, h]
  rfl

theorem LayoutFault.head?_message (fault : LayoutFault) :
    fault.message.toList.head? = some 'b' ∨ fault.message.toList.head? = some 'f' := by
  cases fault with
  | base name part size =>
    left
    repeat refine head?_toList_append ?_
    decide
  | field part size =>
    right
    repeat refine head?_toList_append ?_
    decide
  | bits name offset width limit =>
    left
    repeat refine head?_toList_append ?_
    decide

/-- The words for parts that do not fit are not those for a cycle. -/
theorem LayoutFault.message_ne (fault : LayoutFault) (path : List String) :
    fault.message ≠ (TypeProblem.valueCycle path).message := by
  intro h
  have hcycle : (TypeProblem.valueCycle path).message.toList.head? = some 't' :=
    head?_toList_append (by decide)
  rw [← h] at hcycle
  rcases LayoutFault.head?_message fault with hb | hf
  · rw [hb] at hcycle
    cases hcycle
  · rw [hf] at hcycle
    cases hcycle

/-! ## 2. Cycles of shapes and of parts -/

/-- The shape that `x` was placed with has a base or field whose type may be `y` under its
arrays: it is if the type was declared, and one that was not declared may be anything. -/
def MayContain (s : State σ) (x y : Handle) : Prop :=
  ∃ shape ref, s.placed.get? x = some shape ∧ ref ∈ shape.partRefs ∧
    ∀ t, s.declared.get? ref = some t → innermost s.graph t = y

/-- What is embedded under arrays is reached by value. -/
theorem embeds_innermost (hs : Linked s) (t : Handle) :
    Relation.ReflTransGen s.graph.Embeds t (innermost s.graph t) := by
  induction t using Nat.strongRecOn with
  | ind t ih =>
    cases hget : s.graph.get t with
    | array e n =>
      have hlt := hs.element_lt hget
      rw [innermost_of_array hget hlt]
      refine Relation.ReflTransGen.head ?_ (ih e hlt)
      rw [Graph.Embeds, hget]
      exact List.mem_singleton_self e
    | _ =>
      rw [innermost_of_not_array (by simp [hget])]

theorem exists_of_mem_forall₂ {α β : Type} {R : α → β → Prop} {l : List α} {m : List β}
    (h : List.Forall₂ R l m) {a : α} (ha : a ∈ l) : ∃ b ∈ m, R a b := by
  induction h with
  | nil => cases ha
  | cons hab _ ih =>
    rcases List.mem_cons.mp ha with rfl | ha
    · exact ⟨_, List.mem_cons_self, hab⟩
    · obtain ⟨b, hb, hr⟩ := ih ha
      exact ⟨b, List.mem_cons_of_mem _ hb, hr⟩

/-- A part of an aggregate that follows its shape is what the shape says. -/
theorem Follows.isPart {shape : Shape} {a : Aggregate} {x y : Handle} (hf : Follows s shape a)
    (ha : s.graph.get x = .aggregate a) {ref : Ref} (href : ref ∈ shape.partRefs)
    (hy : ∀ t, s.declared.get? ref = some t → innermost s.graph t = y) :
    ∃ p ∈ (s.graph.get x).valueParts, innermost s.graph p = y := by
  rw [ha]
  rcases List.mem_append.mp href with hbase | hfield
  · obtain ⟨b, hb, rfl⟩ := List.mem_map.mp hbase
    obtain ⟨p, hp, hpart⟩ := exists_of_mem_forall₂ hf.1 hb
    exact ⟨p.type, List.mem_append_left _ (List.mem_map.mpr ⟨p, hp, rfl⟩), hy _ hpart.1⟩
  · obtain ⟨f, hf', rfl⟩ := List.mem_map.mp hfield
    obtain ⟨p, hp, hpart⟩ := exists_of_mem_forall₂ hf.2 hf'
    exact ⟨p.type, List.mem_append_right _ (List.mem_map.mpr ⟨p, hp, rfl⟩), hy _ hpart.1⟩

/-- Nothing that is reached by value is invalid. -/
def ValidBelow (s : State σ) (x : Handle) : Prop :=
  ∀ y, Relation.ReflTransGen s.graph.Embeds x y → s.registry.isInvalid y = false

/-- What is valid all the way down contains only what it has as a part, and that is valid all
the way down as well. -/
theorem MayContain.isPart (hs : Settled module s) {x y : Handle} (hc : MayContain s x y)
    (hvalid : ValidBelow s x) : IsPart s.graph y x ∧ ValidBelow s y := by
  obtain ⟨shape, ref, hshape, href, hy⟩ := hc
  obtain ⟨a, ha⟩ := (hs.placed x).mp ⟨shape, hshape⟩
  have hfollows := hs.faithful x a shape ha (hs.isComplete ha) (hvalid x .refl) hshape
  obtain ⟨p, hp, hpy⟩ := hfollows.isPart ha href hy
  refine ⟨⟨a, ha, p, hp, hpy⟩, fun z hz => hvalid z ?_⟩
  refine Relation.ReflTransGen.head hp ?_
  exact (hpy ▸ embeds_innermost hs.toLinked p).trans hz

theorem not_transGen_self_of_acc {α : Type} {r : α → α → Prop} {x : α} (hx : Acc r x) :
    ¬Relation.TransGen r x x := by
  have hacc := hx.transGen
  clear hx
  induction hacc with
  | intro x _ ih => exact fun hcycle => ih x hcycle hcycle

/-- On a cycle of shapes not everything is valid all the way down. -/
theorem exists_invalid_of_cycle (hs : Settled module s) {h : Handle}
    (hcycle : Relation.TransGen (MayContain s) h h) :
    ∃ y, Relation.ReflTransGen s.graph.Embeds h y ∧ s.registry.isInvalid y = true := by
  by_contra hnone
  have hvalid : ValidBelow s h := by
    intro y hy
    cases hi : s.registry.isInvalid y with
    | false => rfl
    | true => exact absurd ⟨y, hy, hi⟩ hnone
  -- along the cycle everything stays valid, so it is a cycle of parts
  have hparts : ∀ y, Relation.TransGen (MayContain s) h y →
      ValidBelow s y ∧ Relation.TransGen (IsPart s.graph) y h := by
    intro y hy
    induction hy with
    | single hc =>
      obtain ⟨hpart, hbelow⟩ := hc.isPart hs hvalid
      exact ⟨hbelow, .single hpart⟩
    | tail _ hc ih =>
      obtain ⟨hpart, hbelow⟩ := hc.isPart hs ih.1
      exact ⟨hbelow, .head hpart ih.2⟩
  have hself := (hparts h hcycle).2
  obtain ⟨z, -, hpart⟩ := Relation.TransGen.tail'_iff.mp hself
  obtain ⟨a, ha, -⟩ := hpart
  exact not_transGen_self_of_acc (hs.grounded.acc h ⟨a, ha, hs.isComplete ha⟩) hself

/-- What reaches something invalid by value is not selected. -/
theorem not_mem_selected (hs : Linked s) {h y : Handle}
    (hpath : Relation.ReflTransGen s.graph.Embeds h y) (hy : s.registry.isInvalid y = true) :
    h ∉ Export.selected module s.graph s.registry := by
  intro hmem
  obtain ⟨hcandidate, hnone⟩ := List.mem_filter.mp hmem
  have hvalid := (List.mem_filter.mp hcandidate).2
  simp only [Bool.and_eq_true, Bool.not_eq_true'] at hvalid
  have hfound := Graph.isSome_embedded? hs.parts hpath hy hvalid.2
  unfold Export.invalidDependency? at hnone
  rw [Option.isNone_iff_eq_none] at hnone
  rw [hnone] at hfound
  cases hfound

/-! ## 3. The main result -/

/-- Cycles by value are found: what is reported is one, what is marked for one is on a reported
one, what lies on one is invalid or embeds something that is, and what is valid is whole. -/
structure CyclesFound (module : String) (s : State σ) : Prop where
  reports : ∀ d ∈ s.diagnostics, d.kind = .valueCycle →
    ∃ ring, Ring s ring ∧ d = ringReport module s.registry ring
  marks : ∀ h path, s.registry.invalid.get? h = some (TypeProblem.valueCycle path).message →
    ∃ ring, Ring s ring ∧ h ∈ ring ∧ ringReport module s.registry ring ∈ s.diagnostics
  cycles : ∀ h, Relation.TransGen (MayContain s) h h →
    (∃ y, Relation.ReflTransGen s.graph.Embeds h y ∧ s.registry.isInvalid y = true) ∧
      h ∉ Export.selected module s.graph s.registry
  whole : ∀ h a shape, s.graph.get h = .aggregate a → s.placed.get? h = some shape →
    s.registry.isInvalid h = false → a.stage = .complete ∧ Follows s shape a

theorem Settled.cyclesFound (hs : Settled module s) : CyclesFound module s where
  reports := fun d hd hk => by
    obtain ⟨ring, hring, -, hreport⟩ := hs.explained.reports d hd hk
    exact ⟨ring, hring, hreport⟩
  marks := fun h path hr => by
    have hx := hs.explained.marks h _ hr
    generalize hreason : (TypeProblem.valueCycle path).message = reason at hx
    cases hx with
    | pending hmem => cases hmem
    | ring ring hring hmem hreport => exact ⟨ring, hring, hmem, hreport⟩
    | layout fault => exact absurd hreason.symm (LayoutFault.message_ne fault path)
  cycles := fun h hcycle => by
    obtain ⟨y, hpath, hy⟩ := exists_invalid_of_cycle hs hcycle
    exact ⟨⟨y, hpath, hy⟩, not_mem_selected hs.toLinked hpath hy⟩
  whole := fun h a shape ha hshape hvalid =>
    ⟨hs.isComplete ha, hs.faithful h a shape ha (hs.isComplete ha) hvalid hshape⟩

/-- **Cycles by value are found, and no run ends at one**: whatever the source says and whatever
was requested before, resolving references finds all cycles if it returns, and if it stops it
is for another reason. -/
theorem resolveAll_cyclesFound (hs : Reached task s) (limits : Limits) (refs : List Ref) :
    Ensures (resolveAll task limits refs) s (fun _ s' => CyclesFound task.module s')
      fun e _ => e.isCycle = false :=
  (settles_resolveAll hs.settled limits refs).mono (fun _ _ hs' => hs'.cyclesFound)
    fun _ _ he => he

/-- A source of two structs that contain each other, `A` and `B`, and of one with the first in it,
`C`. -/
def ringSource : Source Unit where
  lookup session _ ref :=
    (.ok (match ref with
      | .name "A" => some (holder "A" (.name "B"))
      | .name "B" => some (holder "B" (.name "A"))
      | .name "C" => some (holder "C" (.name "A"))
      | _ => none), session)
  typeNames _ _ := .ok ["A", "B", "C"]
  pointerSize _ _ := .ok 8
where
  /-- A struct with one field. -/
  holder (name : String) (type : Ref) : Shape :=
    Shape.ofAggregate name none [⟨"part", type, 0, none, none, false⟩] [] false

/-- The ring is entered at `A` by way of `C`, which is not on it and stays valid. -/
theorem resolveAll_ringSource : ∃ roots s, resolveAll ⟨ringSource, "m"⟩ ⟨8, 8⟩ [.name "C"]
      (State.start ()) = .ok roots s ∧
    (s.diagnostics.map Diagnostic.subject = ["m!A"] ∧
      roots.map s.registry.isInvalid = [false] ∧ s.registry.invalid.map Prod.fst = [2, 1]) ∧
    CyclesFound "m" s := by
  have hrun : returns (resolveAll ⟨ringSource, "m"⟩ ⟨8, 8⟩ [.name "C"]) (State.start ())
      (fun roots s => s.diagnostics.map Diagnostic.subject = ["m!A"] ∧
        roots.map s.registry.isInvalid = [false] ∧ s.registry.invalid.map Prod.fst = [2, 1]) =
      true := by decide +kernel
  obtain ⟨roots, s, hs, hcheck⟩ := exists_of_returns hrun
  exact ⟨roots, s, hs, of_decide_eq_true hcheck,
    (resolveAll_cyclesFound (Reached.start ()) _ _).of_ok hs⟩

end NativeTypes.Resolver
