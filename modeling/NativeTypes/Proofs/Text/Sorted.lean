/-
NativeTypes.Proofs.Text.Sorted — sorting by texts.

Sorting is stable, so what it gives depends on the order before as far as
elements stand both ways, and only so far (`mergeSort_eq_of_antisymm`). By
texts that is as far as texts are equal (`mergeSort_eq_of_perm`); where none
are, these ascend strictly (`pairwise_lt_mergeSort`).
-/
import Mathlib.Data.List.Permutation

namespace NativeTypes

/-- Sorting by an order that tells all apart forgets the order before. -/
theorem mergeSort_eq_of_antisymm {α : Type} {le : α → α → Bool}
    (htrans : ∀ a b c, le a b = true → le b c = true → le a c = true)
    (htotal : ∀ a b, (le a b || le b a) = true) {xs ys : List α} (hperm : xs.Perm ys)
    (hantisymm : ∀ a ∈ xs, ∀ b ∈ xs, le a b = true → le b a = true → a = b) :
    xs.mergeSort le = ys.mergeSort le := by
  have hsame : (xs.mergeSort le).Perm (ys.mergeSort le) :=
    (List.mergeSort_perm _ _).trans (hperm.trans (List.mergeSort_perm _ _).symm)
  refine hsame.eq_of_pairwise ?_ (List.pairwise_mergeSort htrans htotal xs)
    (List.pairwise_mergeSort htrans htotal ys)
  intro a b ha hb
  exact hantisymm a (List.mem_mergeSort.mp ha) b (hperm.mem_iff.mpr (List.mem_mergeSort.mp hb))

/-- Sorting by a key that tells all apart forgets the order before. -/
theorem mergeSort_eq_of_perm {α : Type} {key : α → String} {xs ys : List α}
    (hperm : xs.Perm ys) (hkey : ∀ a ∈ xs, ∀ b ∈ xs, key a = key b → a = b) :
    (xs.mergeSort fun a b => key a ≤ key b) = ys.mergeSort fun a b => key a ≤ key b := by
  refine mergeSort_eq_of_antisymm ?_ ?_ hperm ?_
  · intro a b c hab hbc
    exact decide_eq_true (String.le_trans (of_decide_eq_true hab) (of_decide_eq_true hbc))
  · intro a b
    simpa using String.le_total (key a) (key b)
  · intro a ha b hb hab hba
    exact hkey a ha b hb (String.le_antisymm (of_decide_eq_true hab) (of_decide_eq_true hba))

/-- Sorting by a key that tells all apart leaves the keys ascending. -/
theorem pairwise_lt_mergeSort {α : Type} {key : α → String} {xs : List α}
    (hnodup : (xs.map key).Nodup) :
    (xs.mergeSort fun a b => key a ≤ key b).Pairwise fun a b => key a < key b := by
  have hle : (xs.mergeSort fun a b => key a ≤ key b).Pairwise fun a b =>
      decide (key a ≤ key b) = true := by
    refine List.pairwise_mergeSort (fun a b c hab hbc => ?_) (fun a b => ?_) xs
    · exact decide_eq_true (String.le_trans (of_decide_eq_true hab) (of_decide_eq_true hbc))
    · simpa using String.le_total (key a) (key b)
  have hperm : (xs.mergeSort fun a b => key a ≤ key b).Perm xs := List.mergeSort_perm _ _
  have hne : (xs.mergeSort fun a b => key a ≤ key b).Pairwise fun a b => key a ≠ key b :=
    List.pairwise_map.mp ((hperm.map key).nodup_iff.mpr hnodup)
  exact (hle.and hne).imp fun h => String.not_le.mp fun hba =>
    h.2 (String.le_antisymm (of_decide_eq_true h.1) hba)

/-- Sorted texts depend on the texts alone. -/
theorem mergeSort_texts_eq {xs ys : List String} (hperm : xs.Perm ys) :
    (xs.mergeSort fun a b => a ≤ b) = ys.mergeSort fun a b => a ≤ b :=
  @mergeSort_eq_of_perm String id xs ys hperm fun _ _ _ _ h => h

end NativeTypes
