/-
NativeTypes.Proofs.Instance.Graph — what the operations on a graph leave
at each handle.

A graph is read through `get` and `count` only. Every operation has one
equation for each of them (`get_push`, `get_set`, `get_finalize`, …), and
nothing below unfolds the array of instances again. A handle past the end
reads as an undefined instance, so an instance of any other kind, or one
with parts, lies inside the graph (`lt_count_of_parts`).
-/
import NativeTypes.Instance.Graph

namespace NativeTypes

/-! ## 1. Parts of an instance -/

theorem Instance.mem_parts_of_valueParts {i : Instance} {h : Handle} (hh : h ∈ i.valueParts) :
    (h, true) ∈ i.parts := by
  unfold Instance.parts
  exact List.mem_append_left _ (List.mem_map.mpr ⟨h, hh, rfl⟩)

theorem Instance.mem_parts_of_referenceParts {i : Instance} {h : Handle}
    (hh : h ∈ i.referenceParts) : (h, false) ∈ i.parts := by
  unfold Instance.parts
  exact List.mem_append_right _ (List.mem_map.mpr ⟨h, hh, rfl⟩)

theorem Instance.mem_parts_iff {i : Instance} {p : Handle × Bool} :
    p ∈ i.parts ↔
      (p.2 = true ∧ p.1 ∈ i.valueParts) ∨ (p.2 = false ∧ p.1 ∈ i.referenceParts) := by
  obtain ⟨h, b⟩ := p
  cases b <;> simp [Instance.parts]

/-- An instance without parts of its own: a scalar or an undefined type. -/
theorem Instance.not_mem_parts_undefined (name : String) (p : Handle × Bool) :
    p ∉ (Instance.undefined name).parts := by
  simp [Instance.parts, Instance.valueParts, Instance.referenceParts]

namespace Graph

/-! ## 2. Reading -/

theorem get_eq (g : Graph) (h : Handle) : g.get h = (g.instances[h]?).getD (.undefined "") := by
  simp [get]

theorem get_of_count_le {g : Graph} {h : Handle} (hh : g.count ≤ h) : g.get h = .undefined "" := by
  have hnone : g.instances[h]? = none := Array.getElem?_eq_none hh
  rw [get_eq, hnone]
  rfl

theorem lt_count_of_aggregate {g : Graph} {h : Handle} {a : Aggregate}
    (ha : g.get h = .aggregate a) : h < g.count := by
  by_cases hh : h < g.count
  · exact hh
  · rw [get_of_count_le (Nat.le_of_not_lt hh)] at ha
    cases ha

theorem lt_count_of_parts {g : Graph} {h : Handle} {p : Handle × Bool}
    (hp : p ∈ (g.get h).parts) : h < g.count := by
  by_cases hh : h < g.count
  · exact hh
  · rw [get_of_count_le (Nat.le_of_not_lt hh)] at hp
    exact absurd hp (Instance.not_mem_parts_undefined _ _)

/-! ## 3. Adding and replacing instances -/

@[simp] theorem count_push (g : Graph) (i : Instance) : (g.push i).count = g.count + 1 := by
  simp [count, push]

theorem get_push (g : Graph) (i : Instance) (h : Handle) :
    (g.push i).get h = if h = g.count then i else g.get h := by
  simp only [get_eq, push, Array.getElem?_push, count]
  split
  · rfl
  · rfl

theorem get_push_of_lt {g : Graph} {i : Instance} {h : Handle} (hh : h < g.count) :
    (g.push i).get h = g.get h := by
  rw [get_push, if_neg (Nat.ne_of_lt hh)]

@[simp] theorem get_push_self (g : Graph) (i : Instance) : (g.push i).get g.count = i := by
  rw [get_push, if_pos rfl]

@[simp] theorem count_set (g : Graph) (h : Handle) (i : Instance) :
    (g.set h i).count = g.count := by
  simp [count, set]

theorem get_set {g : Graph} {h : Handle} (hh : h < g.count) (i : Instance) (h' : Handle) :
    (g.set h i).get h' = if h' = h then i else g.get h' := by
  simp only [get_eq, set, Array.getElem?_setIfInBounds]
  by_cases he : h = h'
  · subst he
    have hlt : h < g.instances.size := hh
    simp [hlt]
  · rw [if_neg he, if_neg (Ne.symm he)]

/-! ## 4. Changing an aggregate -/

theorem change_of_aggregate {g : Graph} {h : Handle} {a : Aggregate}
    (ha : g.get h = .aggregate a) (hs : a.stage ≠ .complete) (f : Aggregate → Aggregate) :
    g.change h f = .ok (g.set h (.aggregate (f a))) := by
  unfold change
  rw [ha]
  simp only [if_neg hs]

@[simp] theorem count_finalize (g : Graph) (h : Handle) : (g.finalize h).count = g.count := by
  unfold finalize
  split
  · split
    · rfl
    · simp
  · rfl

theorem finalize_of_growing {g : Graph} {h : Handle} {a : Aggregate}
    (ha : g.get h = .aggregate a) (hf : a.isFinalized = false) :
    g.finalize h = g.set h (.aggregate { a with stage := .complete }) := by
  unfold finalize
  rw [ha]
  simp [hf]

theorem get_finalize {g : Graph} {h : Handle} {a : Aggregate} (ha : g.get h = .aggregate a)
    (hf : a.isFinalized = false) (h' : Handle) :
    (g.finalize h).get h' =
      if h' = h then .aggregate { a with stage := .complete } else g.get h' := by
  rw [finalize_of_growing ha hf, get_set (lt_count_of_aggregate ha)]

end Graph

end NativeTypes
