/-
NativeTypes.Proofs.Registry — the two tables of a registry say the same.

`Coherent` ties the table of keys to the table of instances: a key belongs
to an instance exactly when it stands in the instance's list, and no list
is empty. `bind` is the only way in which the tables change; it keeps them
coherent when the key is free (`Coherent.bind`), and what it adds it adds at
the end of a list, so primary keys stay (`keysOf_prefix_bind`).

A list of what is registered is a permutation of the table, sorted by the
texts of keys, if there is one (`perm_of_inTextOrder?`,
`sorted_of_inTextOrder?`). Where all primary keys can be written there is
one, and it is the total order by texts that exports work with
(`Coherent.instances?_eq`).
-/
import NativeTypes.Registry

namespace NativeTypes.Registry

variable {κ : Type} [DecidableEq κ]

/-! ## 1. What a binding changes -/

theorem get?_bind (r : Registry κ) (key key' : κ) (h : Handle) :
    (r.bind key h).get? key' = if key = key' then some h else r.get? key' :=
  Assoc.get?_put r.byKey key key' h

theorem get?_keys_bind (r : Registry κ) (key : κ) (h h' : Handle) :
    Assoc.get? (r.bind key h).keys h' =
      if h = h' then some (r.keysOf h ++ [key]) else Assoc.get? r.keys h' :=
  Assoc.get?_put r.keys h h' _

theorem keysOf_bind (r : Registry κ) (key : κ) (h h' : Handle) :
    (r.bind key h).keysOf h' = if h = h' then r.keysOf h ++ [key] else r.keysOf h' := by
  unfold keysOf
  rw [get?_keys_bind]
  split
  · rfl
  · rfl

@[simp] theorem invalid_bind (r : Registry κ) (key : κ) (h : Handle) :
    (r.bind key h).invalid = r.invalid := rfl

theorem keysOf_prefix_bind (r : Registry κ) (key : κ) (h h' : Handle) :
    r.keysOf h' <+: (r.bind key h).keysOf h' := by
  rw [keysOf_bind]
  split
  · rename_i he
    exact he ▸ List.prefix_append _ _
  · exact List.prefix_refl _

omit [DecidableEq κ] in
/-- A longer list of keys has the same primary key. -/
theorem keyOf?_of_prefix {r r' : Registry κ} {h : Handle} {key : κ}
    (hp : r.keysOf h <+: r'.keysOf h) (hk : r.keyOf? h = some key) : r'.keyOf? h = some key := by
  unfold keyOf? at hk ⊢
  obtain ⟨rest, hrest⟩ := hp
  rw [← hrest, List.head?_append, hk]
  rfl

omit [DecidableEq κ] in
theorem mem_keysOf_of_keyOf? {r : Registry κ} {h : Handle} {key : κ}
    (hk : r.keyOf? h = some key) : key ∈ r.keysOf h :=
  List.mem_of_mem_head? hk

/-! ## 2. Coherence -/

/-- The tables of keys and of instances are inverse to each other. -/
structure Coherent (r : Registry κ) : Prop where
  get?_iff : ∀ key h, r.get? key = some h ↔ key ∈ r.keysOf h
  ne_nil : ∀ h keys, Assoc.get? r.keys h = some keys → keys ≠ []
  nodup : (r.keys.map Prod.fst).Nodup

theorem Coherent.empty : Coherent ({} : Registry κ) where
  get?_iff := by simp [Registry.get?, Registry.keysOf]
  ne_nil := by simp
  nodup := List.nodup_nil

theorem Coherent.bind {r : Registry κ} (hr : r.Coherent) {key : κ} (hfree : r.get? key = none)
    (h : Handle) : (r.bind key h).Coherent where
  get?_iff := by
    intro key' h'
    rw [get?_bind, keysOf_bind]
    by_cases hk : key = key'
    · subst hk
      -- a free key stands in no list yet
      have hnot : key ∉ r.keysOf h' := fun hm => by
        rw [(hr.get?_iff key h').mpr hm] at hfree
        cases hfree
      by_cases hh : h = h'
      · simp [hh]
      · simp [hh, hnot]
    · rw [if_neg hk, hr.get?_iff]
      by_cases hh : h = h'
      · simp [hh, Ne.symm hk]
      · simp [hh]
  ne_nil := by
    intro h' keys hkeys
    rw [get?_keys_bind] at hkeys
    split at hkeys
    · cases hkeys
      simp
    · exact hr.ne_nil h' keys hkeys
  nodup := Assoc.nodup_put hr.nodup h _

theorem Coherent.markInvalid {r : Registry κ} (hr : r.Coherent) (h : Handle) (reason : String) :
    (r.markInvalid h reason).Coherent :=
  ⟨hr.get?_iff, hr.ne_nil, hr.nodup⟩

/-- Whoever has a list of keys has a primary key. -/
theorem Coherent.isSome_keyOf?_iff {r : Registry κ} (hr : r.Coherent) (h : Handle) :
    (r.keyOf? h).isSome ↔ (Assoc.get? r.keys h).isSome := by
  unfold keyOf? keysOf
  cases hk : Assoc.get? r.keys h with
  | none => simp
  | some keys =>
    have hne := hr.ne_nil h keys hk
    cases keys with
    | nil => exact absurd rfl hne
    | cons key rest => simp

/-- Registered are the instances that have a primary key. -/
theorem Coherent.mem_keys_iff {r : Registry κ} (hr : r.Coherent) (h : Handle) :
    h ∈ r.keys.map Prod.fst ↔ (r.keyOf? h).isSome := by
  rw [Assoc.mem_keys_iff, hr.isSome_keyOf?_iff]

/-- Two instances do not share a primary key. -/
theorem Coherent.keyOf?_inj {r : Registry κ} (hr : r.Coherent) {h h' : Handle} {key : κ}
    (hk : r.keyOf? h = some key) (hk' : r.keyOf? h' = some key) : h = h' := by
  have h1 := (hr.get?_iff key h).mpr (mem_keysOf_of_keyOf? hk)
  have h2 := (hr.get?_iff key h').mpr (mem_keysOf_of_keyOf? hk')
  exact Option.some.inj (h1.symm.trans h2)

/-! ## 3. More keys -/

/-- No key is bound to another instance, and no instance gets another primary key. -/
structure Widens (r r' : Registry κ) : Prop where
  get? : ∀ key h, r.get? key = some h → r'.get? key = some h
  keyOf? : ∀ h key, r.keyOf? h = some key → r'.keyOf? h = some key

theorem Widens.refl (r : Registry κ) : r.Widens r := ⟨fun _ _ h => h, fun _ _ h => h⟩

theorem Widens.trans {r r' r'' : Registry κ} (h : r.Widens r') (h' : r'.Widens r'') :
    r.Widens r'' :=
  ⟨fun key x hx => h'.get? key x (h.get? key x hx),
    fun x key hk => h'.keyOf? x key (h.keyOf? x key hk)⟩

theorem widens_bind (r : Registry κ) {key : κ} (hfree : r.get? key = none) (h : Handle) :
    r.Widens (r.bind key h) where
  get? := fun key' x hx => by
    rw [get?_bind, if_neg, hx]
    rintro rfl
    rw [hfree] at hx
    cases hx
  keyOf? := fun _ _ hk => keyOf?_of_prefix (keysOf_prefix_bind _ _ _ _) hk

/-- Longer lists of keys, in tables that agree. -/
theorem widens_of_prefix {r r' : Registry κ} (hr : r.Coherent) (hr' : r'.Coherent)
    (h : ∀ x, r.keysOf x <+: r'.keysOf x) : r.Widens r' where
  get? := fun key x hx => (hr'.get?_iff key x).mpr ((h x).subset ((hr.get?_iff key x).mp hx))
  keyOf? := fun x _ hk => keyOf?_of_prefix (h x) hk

/-! ## 4. Marks -/

omit [DecidableEq κ] in
theorem get?_markInvalid (r : Registry κ) (h h' : Handle) (reason : String) :
    Assoc.get? (r.markInvalid h reason).invalid h' =
      if h = h' then some ((Assoc.get? r.invalid h).getD reason) else Assoc.get? r.invalid h' :=
  Assoc.get?_putNew r.invalid h h' reason

omit [DecidableEq κ] in
theorem isInvalid_iff (r : Registry κ) (h : Handle) :
    r.isInvalid h = true ↔ ∃ reason, Assoc.get? r.invalid h = some reason := by
  unfold isInvalid Assoc.has
  exact Option.isSome_iff_exists

/-! ## 5. Lists in the order of keys -/

section

variable {α : Type} {text? : α → Option String} {as bs : List α}

theorem isSome_inTextOrder? : (inTextOrder? text? as).isSome ↔ ∀ a ∈ as, (text? a).isSome := by
  unfold inTextOrder?
  split
  · rename_i hall
    simpa using hall
  · rename_i hall
    simpa using hall

theorem perm_of_inTextOrder? (h : inTextOrder? text? as = some bs) : bs.Perm as := by
  unfold inTextOrder? at h
  split at h
  · cases h
    exact List.mergeSort_perm _ _
  · cases h

theorem sorted_of_inTextOrder? (h : inTextOrder? text? as = some bs) :
    bs.Pairwise fun a b => ∀ x ∈ text? a, ∀ y ∈ text? b, x ≤ y := by
  unfold inTextOrder? at h
  split at h
  · cases h
    refine (List.pairwise_mergeSort (fun a b c hab hbc => ?_) (fun a b => ?_) _).imp
      fun {a b} hab x hx y hy => ?_
    · exact decide_eq_true (String.le_trans (of_decide_eq_true hab) (of_decide_eq_true hbc))
    · simpa using String.le_total ((text? a).getD "") ((text? b).getD "")
    · have hle := of_decide_eq_true hab
      rwa [Option.mem_def.mp hx, Option.mem_def.mp hy] at hle
  · cases h

end

/-- What is bound to some key has a primary key. -/
theorem Coherent.isSome_keyOf?_of_get? {r : Registry κ} (hr : r.Coherent) {key : κ} {h : Handle}
    (hget : r.get? key = some h) : (r.keyOf? h).isSome := by
  have hmem := (hr.get?_iff key h).mp hget
  unfold keyOf?
  rw [List.head?_eq_some_head (List.ne_nil_of_mem hmem)]
  rfl

/-- Listed is what has a key. -/
theorem Coherent.mem_instances?_iff {r : Registry κ} (hr : r.Coherent) {text? : κ → Option String}
    {listed : List Handle} (hlisted : r.instances? text? = some listed) (h : Handle) :
    h ∈ listed ↔ ∃ key, r.get? key = some h := by
  rw [(perm_of_inTextOrder? hlisted).mem_iff, hr.mem_keys_iff, Option.isSome_iff_exists]
  constructor
  · rintro ⟨key, hkey⟩
    exact ⟨key, (hr.get?_iff key h).mpr (mem_keysOf_of_keyOf? hkey)⟩
  · rintro ⟨key, hkey⟩
    exact Option.isSome_iff_exists.mp (hr.isSome_keyOf?_of_get? hkey)

/-- There is a list if all primary keys can be written, and only then. -/
theorem Coherent.isSome_instances?_iff {r : Registry κ} (hr : r.Coherent)
    (text? : κ → Option String) :
    (r.instances? text?).isSome ↔ ∀ h key, r.keyOf? h = some key → (text? key).isSome := by
  rw [instances?, isSome_inTextOrder?]
  constructor
  · intro hall h key hkey
    have hmem : h ∈ r.keys.map Prod.fst := (hr.mem_keys_iff h).mpr (by rw [hkey]; rfl)
    simpa only [keyText?, hkey, Option.bind_some] using hall h hmem
  · intro hall h hmem
    obtain ⟨key, hkey⟩ := Option.isSome_iff_exists.mp ((hr.mem_keys_iff h).mp hmem)
    simpa only [keyText?, hkey, Option.bind_some] using hall h key hkey

/-- Where all primary keys can be written, the list is the one by their texts. -/
theorem Coherent.instances?_eq {r : Registry Key} (hr : r.Coherent) (module : String)
    (hkeys : ∀ h key, r.keyOf? h = some key → key.isWritable = true) :
    r.instances? (Key.text? module) = some (r.instances module) := by
  have htext : ∀ h ∈ r.keys.map Prod.fst,
      r.keyText? (Key.text? module) h = some (r.keyText module h) := by
    intro h hmem
    obtain ⟨key, hkey⟩ := Option.isSome_iff_exists.mp ((hr.mem_keys_iff h).mp hmem)
    simp only [keyText?, keyText, hkey, Option.bind_some, Option.map_some, Option.getD_some,
      Key.text?, hkeys h key hkey, if_true]
  have hall : (r.keys.map Prod.fst).all
      (fun h => (r.keyText? (Key.text? module) h).isSome) = true :=
    List.all_eq_true.mpr fun h hmem => by rw [htext h hmem]; rfl
  unfold instances? inTextOrder? instances
  rw [if_pos hall]
  -- on the elements both orders compare the same texts
  have hsame := List.map_mergeSort (f := id)
    (r := fun a b : Handle => decide ((r.keyText? (Key.text? module) a).getD "" ≤
      (r.keyText? (Key.text? module) b).getD ""))
    (s := fun a b : Handle => decide (r.keyText module a ≤ r.keyText module b))
    (l := r.keys.map Prod.fst) fun a ha b hb => by
      simp only [htext a ha, htext b hb, Option.getD_some, id]
  simpa only [List.map_id_fun, id] using congrArg some hsame

end NativeTypes.Registry
