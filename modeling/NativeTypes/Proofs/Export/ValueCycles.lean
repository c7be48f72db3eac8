/-
NativeTypes.Proofs.Export.ValueCycles — whether a type contains itself by value
when declarations are ordered.

Between requests all aggregates are complete, and descending along the parts of
complete aggregates ends. What is no aggregate has its parts below it, so
descending by value ends everywhere, unless it goes through an enumeration
whose underlying type is an aggregate: this step alone is not watched while
aggregates are defined (`EmbedsPlainly`, `acc_embedsPlainly`). So every type
that contains itself by value does so through such an enumeration, and without
one the order of declarations has nothing left over (`Reached.orderedByValue`).

No rank is given to instances. That descending ends is accessibility, which is
kept for complete aggregates by the resolver, and extended here to all that is
no aggregate by induction on handles: arrays are followed down to what is under
them, and everything else has its parts below itself.

The order of declarations does not ask for acyclicity, it sorts what is left
over by key. So that nothing is left over is a statement about the list that it
computes (`leftover`), and `exists_place_eq` says that this list is where
sorting by key begins.
-/
import NativeTypes.Proofs.Export.Selection
import NativeTypes.Proofs.Order.Emission
import NativeTypes.Proofs.Resolver.Cycles

namespace NativeTypes

/-! ## 1. Descending by value -/

namespace Resolver

variable {σ : Type} {s : State σ} {module : String} {task : Task σ}

/-- The underlying type of an enumeration is an aggregate, maybe under arrays. -/
def WrapsAggregate (g : Graph) (h : Handle) : Prop :=
  ∃ e, g.get h = .enumeration e ∧ ∃ a, g.get (innermost g e.underlying) = .aggregate a

instance (g : Graph) (h : Handle) : Decidable (WrapsAggregate g h) :=
  match hget : g.get h with
  | .enumeration e =>
    match hinner : g.get (innermost g e.underlying) with
    | .aggregate a => .isTrue ⟨e, hget, a, hinner⟩
    | .primitive _ | .pointer .. | .array .. | .enumeration _ | .function _ | .undefined _ =>
      .isFalse fun ⟨e', he', a, ha⟩ => by
        cases hget.symm.trans he'
        cases hinner.symm.trans ha
  | .primitive _ | .pointer .. | .array .. | .aggregate _ | .function _ | .undefined _ =>
    .isFalse fun ⟨e, he, _⟩ => by cases hget.symm.trans he

/-- `x` is embedded in `y`, which is no enumeration over an aggregate. -/
def EmbedsPlainly (g : Graph) (x y : Handle) : Prop := g.Embeds y x ∧ ¬WrapsAggregate g y

theorem Embeds.below (hs : Linked s) {x y : Handle} (h : s.graph.Embeds y x)
    (hy : ∀ a, s.graph.get y ≠ .aggregate a) : x < y :=
  hs.below y hy (x, true) (Instance.mem_parts_of_valueParts h)

/-- Descending from an instance ends if it does from the aggregate under its arrays. -/
theorem acc_of_innermost (hs : Linked s) (p : Handle)
    (hinner : ∀ a, s.graph.get (innermost s.graph p) = .aggregate a →
      Acc (EmbedsPlainly s.graph) (innermost s.graph p)) : Acc (EmbedsPlainly s.graph) p := by
  induction p using Nat.strongRecOn with
  | ind p ih =>
    cases hget : s.graph.get p with
    | aggregate a =>
      have hself : innermost s.graph p = p := innermost_of_not_array (by simp [hget])
      have hacc := hinner a (by rw [hself, hget])
      rwa [hself] at hacc
    | array e n =>
      have hlt := hs.element_lt hget
      rw [innermost_of_array hget hlt] at hinner
      refine Acc.intro p fun x ⟨hx, _⟩ => ?_
      rw [Graph.Embeds, hget] at hx
      cases List.mem_singleton.mp hx
      exact ih e hlt hinner
    | enumeration e =>
      refine Acc.intro p fun x ⟨hx, hplain⟩ => ?_
      have hlt := Embeds.below hs hx (by simp [hget])
      rw [Graph.Embeds, hget] at hx
      cases List.mem_singleton.mp hx
      exact ih e.underlying hlt fun a ha => absurd ⟨e, hget, a, ha⟩ hplain
    | _ =>
      refine Acc.intro p fun x ⟨hx, _⟩ => ?_
      rw [Graph.Embeds, hget] at hx
      cases hx

/-- Descending by value ends, everywhere. -/
theorem acc_embedsPlainly (hs : Settled module s) (h : Handle) :
    Acc (EmbedsPlainly s.graph) h := by
  have haggregate : ∀ h, Acc (IsPart s.graph) h → ∀ a, s.graph.get h = .aggregate a →
      Acc (EmbedsPlainly s.graph) h := by
    intro h hacc
    induction hacc with
    | intro h _ ih =>
      intro a ha
      refine Acc.intro h fun x ⟨hx, _⟩ => acc_of_innermost hs.toLinked x fun b hb => ?_
      exact ih _ ⟨a, ha, x, hx, rfl⟩ b hb
  refine acc_of_innermost hs.toLinked h fun a ha => ?_
  exact haggregate _ (hs.grounded.acc _ ⟨a, ha, hs.isComplete ha⟩) a ha

/-- What holds all along a path holds at each of its steps. -/
theorem transGen_and {α : Type} {r : α → α → Prop} {P : α → Prop} {x y : α}
    (h : Relation.TransGen r x y)
    (hP : ∀ z, Relation.ReflTransGen r x z → Relation.TransGen r z y → P z) :
    Relation.TransGen (fun u v => r u v ∧ P u) x y := by
  induction h using Relation.TransGen.head_induction_on with
  | single hxy => exact .single ⟨hxy, hP _ .refl (.single hxy)⟩
  | head hxz hzy ih =>
    refine .head ⟨hxz, hP _ .refl (.head hxz hzy)⟩ (ih fun z hz => ?_)
    exact hP z (.head hxz hz)

/-- **What contains itself by value does so through an enumeration over an aggregate.** -/
theorem exists_wrapsAggregate (hs : Settled module s) {h : Handle}
    (hcycle : Relation.TransGen s.graph.Embeds h h) :
    ∃ e, Relation.ReflTransGen s.graph.Embeds h e ∧ Relation.TransGen s.graph.Embeds e h ∧
      WrapsAggregate s.graph e := by
  by_contra hnone
  have hplain := transGen_and hcycle (P := fun x => ¬WrapsAggregate s.graph x)
    fun e he heh hwraps => hnone ⟨e, he, heh, hwraps⟩
  refine not_transGen_self_of_acc (acc_embedsPlainly hs h) ?_
  exact Relation.transGen_swap.mpr hplain

end Resolver

/-! ## 2. Edges by value -/

namespace Graph

variable {g : Graph} {nodes : List Handle} {x y : Handle}

/-- An edge by value was met by value. -/
theorem mem_steps_of_mem_foldl (edges : Assoc Handle Bool) (steps : List (Handle × Bool))
    (h : (y, true) ∈ steps.foldl addEdge edges) : (y, true) ∈ edges ∨ (y, true) ∈ steps := by
  induction steps generalizing edges with
  | nil => exact .inl h
  | cons step steps ih =>
    rcases ih (addEdge edges step) h with hedge | hstep
    · rcases Assoc.mem_put hedge with heq | hold
      · obtain ⟨z, byValue⟩ := step
        obtain ⟨rfl, hflag⟩ := Prod.mk.inj heq
        cases byValue with
        | true => exact .inr List.mem_cons_self
        | false =>
          refine .inl (Assoc.mem_of_get? ?_)
          cases hget : edges.get? y with
          | none =>
            rw [hget] at hflag
            cases hflag
          | some flag =>
            rw [hget] at hflag
            cases flag with
            | true => rfl
            | false => cases hflag
      · exact .inl hold
    · exact .inr (List.mem_cons_of_mem _ hstep)

/-- A step that is taken by value to its end goes by value all the way. -/
theorem embeds_of_steps {u : Handle × Bool}
    (h : Relation.ReflTransGen (fun u v => v ∈ g.steps u) u (y, true)) :
    u.2 = true ∧ Relation.ReflTransGen g.Embeds u.1 y := by
  induction h using Relation.ReflTransGen.head_induction_on with
  | refl => exact ⟨rfl, .refl⟩
  | @head u w hstep _ ih =>
    unfold steps at hstep
    split at hstep
    · cases hstep
    · obtain ⟨part, hpart, rfl⟩ := List.mem_map.mp hstep
      obtain ⟨hflag, hpath⟩ := ih
      obtain ⟨hu, hvalue⟩ : u.2 = true ∧ part.2 = true := by simpa using hflag
      refine ⟨hu, .head ?_ hpath⟩
      rcases Instance.mem_parts_iff.mp hpart with ⟨-, hmem⟩ | ⟨hreference, -⟩
      · exact hmem
      · rw [hvalue] at hreference
        cases hreference

/-- An edge by value is a way by value. -/
theorem EmbedsDeclared.transGen (h : g.EmbedsDeclared nodes x y) :
    Relation.TransGen g.Embeds x y := by
  rcases mem_steps_of_mem_foldl [] _ h.2 with hnil | hmem
  · cases hnil
  · obtain ⟨part, hpart, hpath⟩ := exists_next_of_mem_visits (List.mem_filter.mp hmem).1
    obtain ⟨hvalue, hpath⟩ := embeds_of_steps hpath
    refine .head' ?_ hpath
    rcases Instance.mem_parts_iff.mp hpart with ⟨-, hmem⟩ | ⟨hreference, -⟩
    · exact hmem
    · rw [hvalue] at hreference
      cases hreference

end Graph

/-! ## 3. What is left over -/

namespace Emission

variable {key : Handle → String} {needs : Handle → List Handle}

variable (key needs) in
/-- What remains when nothing more is ready. -/
def leftover (remaining : List Handle) : List Handle :=
  match least? key (remaining.filter (isReady needs remaining)) with
  | none => remaining
  | some v => if v ∈ remaining then leftover (remaining.erase v) else []
termination_by remaining.length
decreasing_by
  rename_i hv
  have := List.length_erase_of_mem hv
  have := List.length_pos_of_mem hv
  omega

/-- If nothing is ready, all of it is left over. -/
theorem leftover_of_stuck {remaining : List Handle} (h : Stuck key needs remaining) :
    leftover key needs remaining = remaining := by
  rw [leftover]
  split
  · rfl
  · rename_i v hv
    rw [Stuck, hv] at h
    cases h

/-- What is written is not left over. -/
theorem leftover_of_next {remaining : List Handle} {v : Handle} (h : Next key needs remaining v) :
    leftover key needs remaining = leftover key needs (remaining.erase v) := by
  rw [leftover]
  split
  · rename_i hnone
    rw [Next, hnone] at h
    cases h
  · rename_i w hw
    rw [Next, hw] at h
    cases h
    have hnext : Next key needs remaining v := hw
    rw [if_pos hnext.mem.1]

/-- What is left over is what stands at the end by key alone. -/
theorem exists_place_eq (remaining : List Handle) : ∃ taken, place key needs remaining =
    taken ++ (leftover key needs remaining).mergeSort fun a b => key a ≤ key b := by
  induction remaining using place_induction key needs with
  | stuck remaining h =>
    rw [place_of_stuck h, leftover_of_stuck h]
    exact ⟨[], rfl⟩
  | next remaining v h ih =>
    obtain ⟨taken, htaken⟩ := ih
    rw [place_of_next h, leftover_of_next h, htaken]
    exact ⟨v :: taken, rfl⟩

/-- Without cycles nothing is left over. -/
theorem leftover_eq_nil (remaining : List Handle)
    (hacyclic : ∀ x ∈ remaining, ¬Relation.TransGen (fun y x => y ∈ needs x) x x) :
    leftover key needs remaining = [] := by
  induction remaining using place_induction key needs with
  | stuck remaining h => rw [leftover_of_stuck h, h.eq_nil hacyclic]
  | next remaining v h ih =>
    rw [leftover_of_next h]
    exact ih fun u hu => hacyclic u (List.mem_of_mem_erase hu)

/-- What is left over in the components of an order. -/
def leftovers (key : Handle → String) (g : Graph) (instances : List Handle) : List Handle :=
  let nodes := instances.mergeSort fun a b => key a ≤ key b
  let edges := allEdges g nodes
  (Components.components nodes edges).flatMap fun c => leftover key (embeds edges c) c

/-- If declarations do not embed each other in circles, nothing is left over. -/
theorem leftovers_eq_nil {g : Graph} {instances : List Handle} (hnodup : instances.Nodup)
    (hacyclic : ∀ v, ¬Relation.TransGen (g.EmbedsDeclared instances) v v) :
    leftovers key g instances = [] := by
  have hnodup' := (List.mergeSort_perm instances fun a b => key a ≤ key b).nodup_iff.mpr hnodup
  have hsame := embedsDeclared_mergeSort key g instances
  refine List.flatMap_eq_nil_iff.mpr fun c hc => leftover_eq_nil c ?_
  exact acyclic_component hnodup' (hsame ▸ hacyclic) hc

end Emission

/-! ## 4. The main result -/

namespace Resolver

variable {σ : Type} {s : State σ} {module : String} {task : Task σ}

/-- What is selected for a declaration and embeds itself does so through a selected enumeration
over an aggregate. -/
theorem exists_selected_wrapsAggregate (hs : Settled module s) {h : Handle}
    (hselected : h ∈ Export.selected module s.graph s.registry)
    (hcycle : Relation.TransGen s.graph.Embeds h h) :
    ∃ e ∈ Export.selected module s.graph s.registry, Relation.TransGen s.graph.Embeds e h ∧
      WrapsAggregate s.graph e := by
  obtain ⟨e, hhe, heh, hwraps⟩ := exists_wrapsAggregate hs hcycle
  refine ⟨e, ?_, heh, hwraps⟩
  rw [Export.mem_selected_iff hs.coherent hs.parts] at hselected ⊢
  obtain ⟨hkey, -, hvalid⟩ := hselected
  obtain ⟨enumeration, hget, -⟩ := hwraps
  refine ⟨?_, by rw [hget]; rfl, fun y hy => hvalid y (hhe.trans hy)⟩
  obtain ⟨x, hx, -⟩ := Relation.TransGen.head'_iff.mp heh
  exact (hs.registered e).mpr
    (Graph.lt_count_of_parts (Instance.mem_parts_of_valueParts hx))

/-- **What contains itself by value does so through an enumeration over an aggregate.** Without
such enumerations among the declarations none of them embeds itself, and they are ordered to the
end by what embeds what. -/
theorem Reached.orderedByValue (hs : Reached task s) :
    let selection := Export.selected task.module s.graph s.registry
    (∀ h, Relation.TransGen s.graph.Embeds h h →
      ∃ e, Relation.ReflTransGen s.graph.Embeds h e ∧ Relation.TransGen s.graph.Embeds e h ∧
        WrapsAggregate s.graph e) ∧
    ((∀ e ∈ selection, ¬WrapsAggregate s.graph e) →
      (∀ h ∈ selection, ¬Relation.TransGen s.graph.Embeds h h) ∧
        Emission.leftovers (s.registry.keyText task.module) s.graph selection = []) := by
  intro selection
  have hsettled := hs.settled
  refine ⟨fun h hcycle => exists_wrapsAggregate hsettled hcycle, fun hnone => ?_⟩
  have hacyclic : ∀ h ∈ selection, ¬Relation.TransGen s.graph.Embeds h h := by
    intro h hh hcycle
    obtain ⟨e, he, -, hwraps⟩ := exists_selected_wrapsAggregate hsettled hh hcycle
    exact hnone e he hwraps
  refine ⟨hacyclic, Emission.leftovers_eq_nil (Export.nodup_selected hsettled.coherent) ?_⟩
  intro h hcycle
  obtain ⟨x, hx, -⟩ := Relation.TransGen.head'_iff.mp hcycle
  refine hacyclic h hx.1 ?_
  exact Relation.TransGen.closed (fun _ _ hedge => hedge.transGen) h h hcycle

/-- A source of a struct `Shape` with an array of a struct `Point` and of an enumeration over a
scalar in it. -/
def shapeSource : Source Unit where
  lookup session _ ref :=
    (.ok (match ref with
      | .name "Shape" => some (Shape.ofAggregate "Shape" none
          [⟨"corners", .name "Point[4]", 0, none, none, false⟩,
            ⟨"color", .name "Color", 32, none, none, false⟩] [] false)
      | .name "Point" => some (Shape.ofAggregate "Point" none
          [⟨"next", .name "Shape*", 0, none, none, false⟩] [] false)
      | .name "Color" => some (Shape.ofEnumeration "Color" (some (.name "int")) [("Red", 0)] none)
      | .name "int" => some (Shape.ofPrimitive "int" .int32)
      | _ => none), session)
  typeNames _ _ := .ok ["Shape"]
  pointerSize _ _ := .ok 8

theorem orderedByValue_shapeSource : ∃ s, Reached ⟨shapeSource, "m"⟩ s ∧ s.graph.count = 6 ∧
    Emission.leftovers (s.registry.keyText "m") s.graph
      (Export.selected "m" s.graph s.registry) = [] := by
  have hrun : returns (resolveAll ⟨shapeSource, "m"⟩ ⟨8, 8⟩ [.name "Shape"]) (State.start ())
      (fun _ s => s.graph.count = 6 ∧ ∀ e ∈ s.graph.handles, ¬WrapsAggregate s.graph e) = true := by
    decide +kernel
  obtain ⟨roots, s, hs, hcheck⟩ := exists_of_returns hrun
  obtain ⟨hcount, hplain⟩ := of_decide_eq_true hcheck
  have hreached : Reached ⟨shapeSource, "m"⟩ s := .resolveAll (.start ()) hs
  have hlinked := hreached.settled.toLinked
  refine ⟨s, hreached, hcount, (hreached.orderedByValue.2 fun e he => hplain e ?_).2⟩
  have hkey := ((Export.mem_selected_iff hlinked.coherent hlinked.parts).mp he).1
  exact List.mem_range.mpr ((hlinked.registered e).mp hkey)

/-- A source of a struct `S` with an enumeration `E` in it that is over the struct. -/
def loopSource : Source Unit where
  lookup session _ ref :=
    (.ok (match ref with
      | .name "S" => some (Shape.ofAggregate "S" none [⟨"e", .name "E", 0, none, none, false⟩] []
          false)
      | .name "E" => some (Shape.ofEnumeration "E" (some (.name "S")) [("A", 0)] none)
      | _ => none), session)
  typeNames _ _ := .ok ["E", "S"]
  pointerSize _ _ := .ok 8

/-- Not every type that contains itself by value is found: through an enumeration over an
aggregate the cycle is not seen, nothing is reported and both types are declared. -/
theorem exists_selected_cycle : ∃ s, Reached ⟨loopSource, "m"⟩ s ∧ s.diagnostics = [] ∧
    ∃ h ∈ Export.selected "m" s.graph s.registry, Relation.TransGen s.graph.Embeds h h := by
  have hrun : returns (resolveAll ⟨loopSource, "m"⟩ ⟨8, 8⟩ [.name "S"]) (State.start ())
      (fun _ s => ((s.registry.keyOf? 0).isSome ∧ (s.graph.get 0).isNamed = true) ∧
        (1 ∈ (s.graph.get 0).valueParts ∧ 0 ∈ (s.graph.get 1).valueParts) ∧
        s.diagnostics = [] ∧ s.registry.invalid = []) = true := by
    decide +kernel
  obtain ⟨roots, s, hs, hcheck⟩ := exists_of_returns hrun
  obtain ⟨⟨hkey, hnamed⟩, ⟨hembeds, hback⟩, hsilent, hinvalid⟩ := of_decide_eq_true hcheck
  have hreached : Reached ⟨loopSource, "m"⟩ s := .resolveAll (.start ()) hs
  have hlinked := hreached.settled.toLinked
  have hvalid : ∀ h, s.registry.isInvalid h = false := fun h => by
    rw [Registry.isInvalid, hinvalid]
    rfl
  refine ⟨s, hreached, hsilent, 0, ?_, .head hembeds (.single hback)⟩
  exact (Export.mem_selected_iff hlinked.coherent hlinked.parts).mpr
    ⟨hkey, hnamed, fun y _ => hvalid y⟩

end Resolver

end NativeTypes
