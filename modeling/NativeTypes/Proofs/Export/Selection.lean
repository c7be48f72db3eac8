/-
NativeTypes.Proofs.Export.Selection — which instances are declared.

The walk along embedded parts finds something invalid exactly if there is
something invalid to be reached, so declared is what is registered, named and
valid all the way down (`mem_selected_iff`).
-/
import Mathlib.Data.List.Nodup
import NativeTypes.Export.Run
import NativeTypes.Proofs.Instance.Walk
import NativeTypes.Proofs.Registry

namespace NativeTypes

/-- What the walk along embedded parts finds is embedded and has the property. -/
theorem Graph.transGen_of_embedded? {g : Graph} {p : Handle → Bool} {h y : Handle}
    (hfound : g.embedded? p h = some y) : Relation.TransGen g.Embeds h y ∧ p y = true := by
  obtain ⟨part, hpart, hpath⟩ := exists_next_of_mem_visits (List.mem_of_find?_eq_some hfound)
  have hstep : ∀ u v, v ∈ g.valueStack u ↔ g.Embeds u v := fun u v => List.mem_reverse
  refine ⟨.head' ((hstep h part).mp hpart) ?_, List.find?_some hfound⟩
  exact Relation.ReflTransGen.mono (fun u v huv => (hstep u v).mp huv) _ _ hpath

namespace Export

variable {g : Graph} {r : Registry Key} {module : String} {h : Handle}

theorem nodup_selected (hr : r.Coherent) : (selected module g r).Nodup := by
  refine List.Nodup.filter _ (List.Nodup.filter _ ?_)
  exact (List.mergeSort_perm _ _).nodup_iff.mpr hr.nodup

/-- What is declared is registered. -/
theorem selected_subset (module : String) (g : Graph) (r : Registry Key) :
    selected module g r ⊆ r.keys.map Prod.fst := by
  intro h hh
  have hmem := List.mem_of_mem_filter (List.mem_of_mem_filter hh)
  exact List.mem_mergeSort.mp hmem

/-- Where nothing is invalid, all named instances are declared. -/
theorem perm_selected_of_valid (hvalid : r.invalid = []) :
    (selected module g r).Perm ((r.keys.map Prod.fst).filter fun x => (g.get x).isNamed) := by
  have hinvalid (x : Handle) : r.isInvalid x = false := by
    rw [Registry.isInvalid, hvalid]
    rfl
  have hdependency (x : Handle) : invalidDependency? g r x = none :=
    List.find?_eq_none.mpr fun y _ => by simp [hinvalid]
  simp only [selected, candidates, hinvalid, hdependency, Bool.not_false, Bool.and_true,
    Option.isNone_none, List.filter_true]
  exact (List.mergeSort_perm _ _).filter _

/-- **Declared is what is registered and named and embeds nothing invalid**, itself included. -/
theorem mem_selected_iff (hr : r.Coherent)
    (hparts : ∀ x, ∀ p ∈ (g.get x).parts, p.1 < g.count) :
    h ∈ selected module g r ↔ (r.keyOf? h).isSome ∧ (g.get h).isNamed = true ∧
      ∀ y, Relation.ReflTransGen g.Embeds h y → r.isInvalid y = false := by
  have hcandidate : h ∈ candidates module g r ↔
      (r.keyOf? h).isSome ∧ (g.get h).isNamed = true ∧ r.isInvalid h = false := by
    rw [candidates, List.mem_filter, Registry.instances, List.mem_mergeSort, hr.mem_keys_iff,
      Bool.and_eq_true, Bool.not_eq_true']
  rw [selected, List.mem_filter, hcandidate, Option.isNone_iff_eq_none]
  constructor
  · rintro ⟨⟨hkey, hnamed, hvalid⟩, hnone⟩
    refine ⟨hkey, hnamed, fun y hpath => ?_⟩
    cases hinvalid : r.isInvalid y with
    | false => rfl
    | true =>
      have hfound := Graph.isSome_embedded? hparts hpath hinvalid hvalid
      rw [invalidDependency?] at hnone
      rw [hnone] at hfound
      cases hfound
  · rintro ⟨hkey, hnamed, hvalid⟩
    refine ⟨⟨hkey, hnamed, hvalid h .refl⟩, ?_⟩
    cases hfound : invalidDependency? g r h with
    | none => rfl
    | some y =>
      obtain ⟨hpath, hinvalid⟩ := Graph.transGen_of_embedded? hfound
      rw [hvalid y hpath.to_reflTransGen] at hinvalid
      cases hinvalid

end Export

end NativeTypes
