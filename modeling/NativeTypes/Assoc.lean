/-
NativeTypes.Assoc — finite maps as lists of pairs in the order of first
insertion.

Each key occurs once. `put` replaces the value of a known key in its place
and appends an unknown one; `get?_put` says what a look-up sees after it.
-/
namespace NativeTypes

/-- A finite map, oldest key first. -/
abbrev Assoc (α β : Type) := List (α × β)

namespace Assoc

variable {α β : Type} [DecidableEq α]

/-- The value of `a`. -/
def get? : Assoc α β → α → Option β
  | [], _ => none
  | (b, v) :: m, a => if b = a then some v else get? m a

/-- The map with `v` for `a`. -/
def put : Assoc α β → α → β → Assoc α β
  | [], a, v => [(a, v)]
  | (b, w) :: m, a, v => if b = a then (b, v) :: m else (b, w) :: put m a v

/-- The map with `v` for `a` unless it has a value already. -/
def putNew (m : Assoc α β) (a : α) (v : β) : Assoc α β :=
  if (get? m a).isSome then m else put m a v

/-- `a` has a value. -/
def has (m : Assoc α β) (a : α) : Bool := (get? m a).isSome

@[simp] theorem get?_nil (a : α) : get? ([] : Assoc α β) a = none := rfl

theorem get?_put (m : Assoc α β) (a b : α) (v : β) :
    get? (put m a v) b = if a = b then some v else get? m b := by
  induction m with
  | nil => simp [put, get?]
  | cons p m ih =>
    obtain ⟨c, w⟩ := p
    by_cases h : c = a
    · subst h
      by_cases hb : c = b <;> simp [put, get?, hb]
    · by_cases hb : c = b
      · subst hb
        simp [put, get?, h, Ne.symm h]
      · simp [put, get?, h, hb, ih]

theorem get?_putNew (m : Assoc α β) (a b : α) (v : β) :
    get? (putNew m a v) b = if a = b then some ((get? m a).getD v) else get? m b := by
  unfold putNew
  split
  · rename_i known
    obtain ⟨w, eq⟩ := Option.isSome_iff_exists.1 known
    split
    · rename_i hab
      subst hab
      rw [eq, Option.getD_some]
    · rfl
  · rename_i unknown
    rw [get?_put, Option.not_isSome_iff_eq_none.1 unknown, Option.getD_none]

theorem mem_of_get? {m : Assoc α β} {a : α} {v : β} (h : get? m a = some v) : (a, v) ∈ m := by
  induction m with
  | nil => cases h
  | cons p m ih =>
    obtain ⟨b, w⟩ := p
    rw [get?] at h
    split at h
    · rename_i hb
      cases h
      exact hb ▸ List.mem_cons_self
    · exact List.mem_cons_of_mem _ (ih h)

theorem get?_of_mem {m : Assoc α β} (h : (m.map Prod.fst).Nodup) {a : α} {v : β}
    (hmem : (a, v) ∈ m) : get? m a = some v := by
  induction m with
  | nil => cases hmem
  | cons p m ih =>
    obtain ⟨b, w⟩ := p
    obtain ⟨hb, hm⟩ := List.nodup_cons.mp h
    rcases List.mem_cons.mp hmem with heq | hmem
    · cases heq
      rw [get?, if_pos rfl]
    · have hne : b ≠ a := by
        rintro rfl
        exact hb (List.mem_map.mpr ⟨_, hmem, rfl⟩)
      rw [get?, if_neg hne]
      exact ih hm hmem

/-- The keys of a map are those that have a value. -/
theorem mem_keys_iff (m : Assoc α β) (a : α) : a ∈ m.map Prod.fst ↔ (get? m a).isSome := by
  induction m with
  | nil => simp
  | cons p m ih =>
    obtain ⟨b, v⟩ := p
    by_cases h : b = a
    · simp [get?, h]
    · simp [get?, h, Ne.symm h, ih]

theorem mem_put {m : Assoc α β} {a : α} {v : β} {p : α × β} (h : p ∈ put m a v) :
    p = (a, v) ∨ p ∈ m := by
  induction m with
  | nil => exact .inl (List.mem_singleton.mp h)
  | cons q m ih =>
    obtain ⟨b, w⟩ := q
    by_cases hab : b = a
    · rw [put, if_pos hab, hab] at h
      exact (List.mem_cons.mp h).imp_right (List.mem_cons_of_mem _)
    · rw [put, if_neg hab] at h
      rcases List.mem_cons.mp h with rfl | h
      · exact .inr List.mem_cons_self
      · exact (ih h).imp_right (List.mem_cons_of_mem _)

theorem nodup_put {m : Assoc α β} (h : (m.map Prod.fst).Nodup) (a : α) (v : β) :
    ((put m a v).map Prod.fst).Nodup := by
  induction m with
  | nil => simp [put]
  | cons p m ih =>
    obtain ⟨b, w⟩ := p
    obtain ⟨hb, hm⟩ := List.nodup_cons.mp h
    by_cases hab : b = a
    · rw [put, if_pos hab]
      exact h
    · rw [put, if_neg hab]
      refine List.nodup_cons.mpr ⟨fun hmem => hb ?_, ih hm⟩
      have hsome := (mem_keys_iff _ b).mp hmem
      rw [get?_put, if_neg (Ne.symm hab)] at hsome
      exact (mem_keys_iff m b).mpr hsome

end Assoc

end NativeTypes
