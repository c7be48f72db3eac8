/-
NativeTypes.Proofs.Instance.Walk — a walk misses nothing that it may see.

What lies on the stack is met if it is among the unseen
(`mem_visits_of_mem_stack`), and so is whatever follows something that is
met (`mem_visits_of_mem_next`). For the walk along embedded parts this makes
`embedded?` complete: if an instance with the property can be reached by
value, one is found (`isSome_embedded?`).
-/
import Mathlib.Logic.Relation
import NativeTypes.Instance.Graph
import NativeTypes.Proofs.Instance.Graph

namespace NativeTypes

/-! ## 1. Visits -/

section

variable {α : Type} [DecidableEq α] (next : α → List α)

theorem mem_visits_of_mem_stack (unseen stack : List α) {v : α} (hstack : v ∈ stack)
    (hunseen : v ∈ unseen) : v ∈ visits next unseen stack := by
  induction unseen, stack using visits.induct next with
  | case1 unseen => cases hstack
  | case2 unseen u rest hu ih =>
    rw [visits, if_pos hu]
    by_cases huv : v = u
    · exact huv ▸ List.mem_cons_self
    · refine List.mem_cons_of_mem _ (ih ?_ ((List.mem_erase_of_ne huv).mpr hunseen))
      exact List.mem_append_right _ ((List.mem_cons.mp hstack).resolve_left huv)
  | case3 unseen u rest hu ih =>
    rw [visits, if_neg hu]
    refine ih ((List.mem_cons.mp hstack).resolve_left ?_) hunseen
    rintro rfl
    exact hu hunseen

theorem mem_visits_of_mem_next (unseen stack : List α) {v w : α}
    (hv : v ∈ visits next unseen stack) (hw : w ∈ next v) (hunseen : w ∈ unseen) :
    w ∈ visits next unseen stack := by
  induction unseen, stack using visits.induct next with
  | case1 unseen =>
    rw [visits] at hv
    cases hv
  | case2 unseen u rest hu ih =>
    rw [visits, if_pos hu] at hv ⊢
    by_cases hwu : w = u
    · exact hwu ▸ List.mem_cons_self
    · have hleft := (List.mem_erase_of_ne hwu).mpr hunseen
      refine List.mem_cons_of_mem _ ?_
      rcases List.mem_cons.mp hv with rfl | hv
      · exact mem_visits_of_mem_stack next _ _ (List.mem_append_left _ hw) hleft
      · exact ih hv hleft
  | case3 unseen u rest hu ih =>
    rw [visits, if_neg hu] at hv ⊢
    exact ih hv hunseen

variable {next} in
/-- Whatever is met is reached from the stack. -/
theorem exists_next_of_mem_visits {unseen stack : List α} {v : α}
    (h : v ∈ visits next unseen stack) :
    ∃ u ∈ stack, Relation.ReflTransGen (fun u v => v ∈ next u) u v := by
  induction unseen, stack using visits.induct next with
  | case1 unseen =>
    rw [visits] at h
    cases h
  | case2 unseen u rest hu ih =>
    rw [visits, if_pos hu] at h
    rcases List.mem_cons.mp h with rfl | h
    · exact ⟨v, List.mem_cons_self, .refl⟩
    · obtain ⟨w, hw, hpath⟩ := ih h
      rcases List.mem_append.mp hw with hw | hw
      · exact ⟨u, List.mem_cons_self, .head hw hpath⟩
      · exact ⟨w, List.mem_cons_of_mem _ hw, hpath⟩
  | case3 unseen u rest hu ih =>
    rw [visits, if_neg hu] at h
    obtain ⟨w, hw, hpath⟩ := ih h
    exact ⟨w, List.mem_cons_of_mem _ hw, hpath⟩

end

/-! ## 2. Embedded instances -/

namespace Graph

/-- `y` is embedded in `x` by value. -/
def Embeds (g : Graph) (x y : Handle) : Prop := y ∈ (g.get x).valueParts

/-- An instance with the property that can be reached by value is found, or another one is. -/
theorem isSome_embedded? {g : Graph} {p : Handle → Bool} {h y : Handle}
    (hparts : ∀ x, ∀ q ∈ (g.get x).parts, q.1 < g.count)
    (hpath : Relation.ReflTransGen g.Embeds h y) (hp : p y = true) (hh : p h = false) :
    (g.embedded? p h).isSome := by
  have hmet : ∀ z, Relation.ReflTransGen g.Embeds h z →
      z = h ∨ z ∈ visits g.valueStack (g.handles.erase h) (g.valueStack h) := by
    intro z hz
    induction hz with
    | refl => exact Or.inl rfl
    | tail hz hstep ih =>
      rename_i u w
      by_cases hw : w = h
      · exact Or.inl hw
      · have hlt : w < g.count := hparts u (w, true) (Instance.mem_parts_of_valueParts hstep)
        have hunseen : w ∈ g.handles.erase h :=
          (List.mem_erase_of_ne hw).mpr (List.mem_range.mpr hlt)
        have hstack : w ∈ g.valueStack u := List.mem_reverse.mpr hstep
        rcases ih with rfl | hu
        · exact Or.inr (mem_visits_of_mem_stack _ _ _ hstack hunseen)
        · exact Or.inr (mem_visits_of_mem_next _ _ _ hu hstack hunseen)
  unfold embedded?
  rw [List.find?_isSome]
  rcases hmet y hpath with rfl | hy
  · rw [hh] at hp
    cases hp
  · exact ⟨y, hy, hp⟩

end Graph

end NativeTypes
