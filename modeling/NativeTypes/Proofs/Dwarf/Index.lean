/-
NativeTypes.Proofs.Dwarf.Index — what the index of debug information keeps.

Of the entries that share a key the index keeps the first of those that tell
most (`byName_ofUnits?`), and it keeps the qualified name of every named entry
(`qualified_ofUnits?`). The entry at an offset is the first one with that
offset in a listing of the trees (`findIn?_eq`); in well-placed trees, where no
two entries have one offset, it is the entry itself.

The index is filled by one walk over the trees, an entry at a time, and each
entry touches one key. So the trees are forgotten first: what the walk meets is
a list (`met`), and what stands under a key in the end is what is kept of the
sublist of entries with that key, by a fold that knows nothing of the other
keys (`byName_foldlM`). Of that fold it is shown that it keeps the best.
-/
import Mathlib.Data.List.Induction
import Mathlib.Data.List.Nodup
import NativeTypes.Dwarf.Index

namespace NativeTypes.Dwarf

/-! ## 1. Entries by offset -/

namespace Entry

mutual
/-- An entry and all entries below it. -/
def listing : Entry → List Entry
  | mk offset tag attributes children =>
    mk offset tag attributes children :: listings children

/-- All entries of several trees. -/
def listings : List Entry → List Entry
  | [] => []
  | e :: es => listing e ++ listings es
end

mutual
theorem find?_eq (n : Int) : ∀ e : Entry, e.find? n = e.listing.find? fun x => x.offset = n
  | mk own tag attributes children => by
    rw [find?, listing, List.find?_cons, findIn?_eq n children]
    by_cases hown : own = n <;> simp [offset, hown]

theorem findIn?_eq (n : Int) :
    ∀ es : List Entry, findIn? n es = (listings es).find? fun x => x.offset = n
  | [] => rfl
  | e :: es => by
    rw [findIn?, listings, List.find?_append, find?_eq n e, findIn?_eq n es]
    cases e.listing.find? fun x => x.offset = n <;> rfl
end

/-- Each entry of the trees has an offset of its own, and none of them is negative. -/
structure Placed (units : List Entry) : Prop where
  nodup : ((listings units).map offset).Nodup
  nonneg : ∀ e ∈ listings units, 0 ≤ e.offset

/-- A well-placed entry is found by its offset. -/
theorem Placed.findIn? {units : List Entry} (h : Placed units) {e : Entry}
    (he : e ∈ listings units) : Entry.findIn? e.offset units = some e := by
  obtain ⟨before, after, hsplit⟩ := List.append_of_mem he
  have hnodup := h.nodup
  rw [findIn?_eq, hsplit, List.find?_eq_some_iff_append]
  refine ⟨by simp, before, after, rfl, fun x hx => ?_⟩
  rw [hsplit, List.map_append, List.map_cons] at hnodup
  have hne : x.offset ≠ e.offset := fun heq =>
    (List.nodup_append.mp hnodup).2.2 x.offset (List.mem_map_of_mem hx) e.offset
      List.mem_cons_self heq
  simpa using hne

end Entry

/-! ## 2. What the walk meets

The walk goes down into what opens a scope and passes by what lies below anything else. So it
meets some of the entries, in the order of the listing. -/

mutual
theorem visitEntry_sublist (scope : List String) :
    ∀ e : Entry, ((visitEntry scope e).map Prod.snd).Sublist e.listing
  | .mk offset tag attributes children => by
    rw [visitEntry, Entry.listing]
    refine .cons_cons _ ?_
    split
    · exact visitEntries_sublist _ children
    · exact List.nil_sublist _

theorem visitEntries_sublist (scope : List String) :
    ∀ es : List Entry, ((visitEntries scope es).map Prod.snd).Sublist (Entry.listings es)
  | [] => .slnil
  | e :: es => by
    rw [visitEntries, Entry.listings, List.map_append]
    exact (visitEntry_sublist scope e).append (visitEntries_sublist scope es)
end

namespace Index

/-- The walk meets entries of the trees, each once and in their order. -/
theorem met_sublist (units : List Entry) :
    ((met units).map Prod.snd).Sublist (Entry.listings units) := by
  induction units with
  | nil => exact .slnil
  | cons unit units ih =>
    obtain ⟨offset, tag, attributes, children⟩ := unit
    rw [met, List.flatMap_cons, List.map_append, Entry.listings, Entry.listing]
    exact (List.Sublist.cons _ (visitEntries_sublist [] children)).append ih

theorem mem_listings_of_mem_met {units : List Entry} {scope : List String} {e : Entry}
    (hmet : (scope, e) ∈ met units) : e ∈ Entry.listings units :=
  (met_sublist units).subset (List.mem_map_of_mem hmet)

/-! ## 3. Entries by key -/

/-- The entries that are found under a key, as they are met. -/
def sharing (key : String) (met : List (List String × Entry)) : List Entry :=
  (met.filter fun m => isNamed m.2 && TypeName.nameKey? (qualify m.1 m.2) = some key).map Prod.snd

/-- Which of the kept entry and another one is kept. -/
def better (current : Option Entry) (e : Entry) : Option Entry :=
  match current with
  | none => some e
  | some c => if c.score < e.score then some e else some c

/-- The entry is the first of those that tell most. -/
def IsBest (entries : List Entry) (w : Entry) : Prop :=
  ∃ before after, entries = before ++ w :: after ∧
    (∀ x ∈ before, x.score < w.score) ∧ ∀ x ∈ after, x.score ≤ w.score

/-- Which entries share a key. -/
theorem mem_sharing {key : String} {l : List (List String × Entry)} {e : Entry} :
    e ∈ sharing key l ↔
      ∃ scope, (scope, e) ∈ l ∧ isNamed e = true ∧
        TypeName.nameKey? (qualify scope e) = some key := by
  simp [sharing, and_assoc]

/-- The best is one of them. -/
theorem IsBest.mem {entries : List Entry} {w : Entry} (h : IsBest entries w) : w ∈ entries := by
  obtain ⟨before, after, rfl, -, -⟩ := h
  exact List.mem_append_right _ List.mem_cons_self

/-- None tells more. -/
theorem IsBest.score_le {entries : List Entry} {w x : Entry} (h : IsBest entries w)
    (hx : x ∈ entries) : x.score ≤ w.score := by
  obtain ⟨before, after, rfl, hbefore, hafter⟩ := h
  rcases List.mem_append.mp hx with hx | hx
  · exact Int.le_of_lt (hbefore x hx)
  · rcases List.mem_cons.mp hx with rfl | hx
    · exact Int.le_refl _
    · exact hafter x hx

theorem exists_foldl_better (c : Entry) (entries : List Entry) :
    ∃ w, entries.foldl better (some c) = some w := by
  induction entries generalizing c with
  | nil => exact ⟨c, rfl⟩
  | cons e entries ih =>
    rw [List.foldl_cons, better]
    split
    · exact ih e
    · exact ih c

/-- What is kept in the end is the best. The induction takes away the entry that comes last. -/
theorem isBest_of_foldl {entries : List Entry} {w : Entry}
    (h : entries.foldl better none = some w) : IsBest entries w := by
  induction entries using List.reverseRecOn generalizing w with
  | nil => cases h
  | append_singleton entries x ih =>
    rw [List.foldl_append, List.foldl_cons, List.foldl_nil] at h
    cases hkept : entries.foldl better none with
    | none =>
      cases entries with
      | nil =>
        cases h
        exact ⟨[], [], rfl, by simp, by simp⟩
      | cons e entries =>
        obtain ⟨w', hw'⟩ := exists_foldl_better e entries
        rw [List.foldl_cons, better, hw'] at hkept
        cases hkept
    | some c =>
      have hbest := ih hkept
      rw [hkept, better] at h
      split at h
      · rename_i hlt
        cases h
        exact ⟨entries, [], rfl, fun y hy => Int.lt_of_le_of_lt (hbest.score_le hy) hlt, by simp⟩
      · rename_i hle
        cases h
        obtain ⟨before, after, rfl, hbefore, hafter⟩ := hbest
        refine ⟨before, after ++ [x], by simp, hbefore, fun y hy => ?_⟩
        rcases List.mem_append.mp hy with hy | hy
        · exact hafter y hy
        · obtain rfl := List.mem_singleton.mp hy
          exact Int.not_lt.mp hle

/-- An entry that is offered under one key changes what stands there, and nothing else. -/
theorem get?_offer (byName : Assoc String Entry) (key k : String) (e : Entry) :
    (offer byName key e).get? k =
      if key = k then better (byName.get? k) e else byName.get? k := by
  by_cases hk : key = k
  · subst hk
    rw [if_pos rfl, offer]
    cases hcurrent : byName.get? key with
    | none => simp [better, Assoc.get?_put]
    | some c =>
      simp only [better]
      split
      · rw [Assoc.get?_put, if_pos rfl]
      · exact hcurrent
  · rw [if_neg hk, offer]
    split
    · rw [Assoc.get?_put, if_neg hk]
    · split
      · rw [Assoc.get?_put, if_neg hk]
      · rfl

/-- What stands under a key is what is kept of the entries that share it. -/
theorem byName_foldlM {l : List (List String × Entry)} {index index' : Index}
    (h : l.foldlM add? index = some index') (key : String) :
    index'.byName.get? key = (sharing key l).foldl better (index.byName.get? key) := by
  induction l generalizing index with
  | nil =>
    cases h
    rfl
  | cons m l ih =>
    rw [List.foldlM_cons] at h
    obtain ⟨index₁, hadd, h⟩ := Option.bind_eq_some_iff.mp h
    rw [ih h]
    rw [add?] at hadd
    split at hadd
    · rename_i hnamed
      obtain ⟨k, hkey, rfl⟩ := Option.map_eq_some_iff.mp hadd
      by_cases hk : k = key <;> simp [sharing, hnamed, hkey, get?_offer, hk]
    · rename_i hnamed
      cases hadd
      simp [sharing, hnamed]

/-- Entries that are not among these keep their names, and these get theirs. -/
theorem qualified_foldlM {l : List (List String × Entry)} {index index' : Index}
    (h : l.foldlM add? index = some index') (hnodup : (l.map fun m => m.2.offset).Nodup) :
    (∀ n ∉ l.map fun m => m.2.offset, index'.qualified.get? n = index.qualified.get? n) ∧
    ∀ m ∈ l, isNamed m.2 = true →
      index'.qualified.get? m.2.offset = some (qualify m.1 m.2) ∧
        ∃ key, TypeName.nameKey? (qualify m.1 m.2) = some key := by
  induction l generalizing index with
  | nil =>
    cases h
    exact ⟨fun _ _ => rfl, fun _ hm => nomatch hm⟩
  | cons m l ih =>
    rw [List.foldlM_cons] at h
    obtain ⟨index₁, hadd, h⟩ := Option.bind_eq_some_iff.mp h
    rw [List.map_cons, List.nodup_cons] at hnodup
    obtain ⟨hkeep, hnames⟩ := ih h hnodup.2
    rw [add?] at hadd
    constructor
    · intro n hn
      rw [List.map_cons, List.mem_cons, not_or] at hn
      rw [hkeep n hn.2]
      split at hadd
      · obtain ⟨k, -, rfl⟩ := Option.map_eq_some_iff.mp hadd
        rw [Assoc.get?_put, if_neg (Ne.symm hn.1)]
      · cases hadd
        rfl
    · intro m' hm' hnamed
      rcases List.mem_cons.mp hm' with rfl | hm'
      · rw [if_pos hnamed] at hadd
        obtain ⟨k, hkey, rfl⟩ := Option.map_eq_some_iff.mp hadd
        rw [hkeep _ hnodup.1, Assoc.get?_put, if_pos rfl]
        exact ⟨rfl, k, hkey⟩
      · exact hnames m' hm' hnamed

theorem byName_ofUnits? {units : List Entry} {index : Index} (h : ofUnits? units = some index)
    {key : String} (hshared : sharing key (met units) ≠ []) :
    ∃ w, index.byName.get? key = some w ∧ IsBest (sharing key (met units)) w := by
  have hkept := byName_foldlM h key
  obtain ⟨e, entries, hentries⟩ := List.exists_cons_of_ne_nil hshared
  obtain ⟨w, hw⟩ := exists_foldl_better e entries
  have hfold : (sharing key (met units)).foldl better none = some w := by
    rw [hentries, List.foldl_cons]
    exact hw
  exact ⟨w, hkept.trans hfold, isBest_of_foldl hfold⟩

theorem qualified_ofUnits? {units : List Entry} {index : Index} (h : ofUnits? units = some index)
    (hplaced : Entry.Placed units) {scope : List String} {e : Entry}
    (hmet : (scope, e) ∈ met units) (hnamed : isNamed e = true) :
    index.qualified.get? e.offset = some (qualify scope e) ∧
      ∃ key, TypeName.nameKey? (qualify scope e) = some key := by
  have hnodup : ((met units).map fun m => m.2.offset).Nodup := by
    have hsub := (met_sublist units).map Entry.offset
    rw [List.map_map] at hsub
    exact hplaced.nodup.sublist hsub
  exact (qualified_foldlM h hnodup).2 (scope, e) hmet hnamed

end Index

end NativeTypes.Dwarf
