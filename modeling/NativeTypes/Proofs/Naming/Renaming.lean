/-
NativeTypes.Proofs.Naming.Renaming — identifiers do not depend on handles.

`Registry.Renames` — a registry holds the same instances under other handles,
with the same primary keys; later keys may have come in another order. Every
instance then proposes the same candidate (`proposals_rename`), so that all get
the same identifiers (`allocate_rename`).

Handles are the only thing a proposal carries that another run would have given
differently, and neither loop of the allocation looks at them: it compares
candidates and texts of keys. So each function commutes with renaming, from the
candidate of one instance up to the whole table. The one place where more than
handles differs are the aliases of an instance, which are listed in the order
in which typedefs were met; what is read off them is the smallest one, so a
permutation of them leads to the same candidate.
-/
import NativeTypes.Naming.Allocate
import NativeTypes.Proofs.Instance.Renaming
import NativeTypes.Proofs.Text.Sorted

namespace NativeTypes

/-- The registry holds the same instances under other handles. -/
structure Registry.Renames (f : Handle ≃ Handle) (r r' : Registry Key) : Prop where
  keyOf? : ∀ h, r'.keyOf? (f h) = r.keyOf? h
  keysOf : ∀ h, (r'.keysOf (f h)).Perm (r.keysOf h)
  isInvalid : ∀ h, r'.isInvalid (f h) = r.isInvalid h

namespace Registry.Renames

variable {f : Handle ≃ Handle} {r r' : Registry Key} (hr : Renames f r r')
include hr

/-- The text of a primary key is the same. -/
theorem keyText (module : String) (h : Handle) : r'.keyText module (f h) = r.keyText module h := by
  unfold Registry.keyText
  rw [hr.keyOf?]

/-- The later keys are the same in some order. -/
theorem aliases {h : Handle} {key : Key} {aliases : List Key} (hk : r.keysOf h = key :: aliases) :
    ∃ aliases', r'.keysOf (f h) = key :: aliases' ∧ aliases'.Perm aliases := by
  have hhead := hr.keyOf? h
  have hperm := hr.keysOf h
  unfold Registry.keyOf? at hhead
  rw [hk] at hhead hperm
  cases hk' : r'.keysOf (f h) with
  | nil =>
    rw [hk'] at hhead
    cases hhead
  | cons key' aliases' =>
    rw [hk'] at hhead hperm
    cases hhead
    exact ⟨aliases', rfl, hperm.cons_inv⟩

end Registry.Renames

namespace Naming

/-! ## 1. Candidates

A candidate depends on the aliases of an instance only through the typedef that is smallest among
them. -/

section

variable {aliases aliases' : List Key} (hperm : aliases'.Perm aliases)
include hperm

/-- The smallest of the typedefs does not depend on their order. -/
theorem firstTypedef?_perm : firstTypedef? aliases' = firstTypedef? aliases := by
  unfold firstTypedef? typedefNames
  rw [mergeSort_texts_eq ((hperm.filter _).map Key.name)]

theorem isUnwritable_perm (policy : Policy) (i : Instance) (f : Handle → Handle) :
    isUnwritable policy (i.rename f) aliases' = isUnwritable policy i aliases := by
  unfold isUnwritable
  rw [Instance.typeName?_rename, firstTypedef?_perm hperm]

theorem typeCandidate_perm (truncate : Bool) (scope name : String) :
    typeCandidate truncate aliases' scope name = typeCandidate truncate aliases scope name := by
  unfold typeCandidate typedefName?
  rw [firstTypedef?_perm hperm]

theorem candidate?_perm (policy : Policy) (i : Instance) (keyText : String)
    (f : Handle → Handle) :
    candidate? policy (i.rename f) keyText aliases' = candidate? policy i keyText aliases := by
  cases i with
  | aggregate a => exact congrArg some (typeCandidate_perm hperm _ a.scope a.name)
  | enumeration e => exact congrArg some (typeCandidate_perm hperm _ e.scope e.name)
  | _ => rfl

end

/-! ## 2. Allocation -/

/-- The proposal under another handle. -/
def Proposal.rename (f : Handle → Handle) (p : Proposal) : Proposal :=
  { p with handle := f p.handle }

section

variable {f : Handle ≃ Handle} {g g' : Graph} {r r' : Registry Key}

/-- The same proposals, under the other handles. -/
theorem proposals_rename (hg : Graph.Renames f g g') (hr : Registry.Renames f r r')
    (policy : Policy) (module : String) (hs : List Handle) :
    proposals policy module g' r' (hs.map f) =
      (proposals policy module g r hs).map (List.map (Proposal.rename f)) := by
  induction hs with
  | nil => rfl
  | cons h hs ih =>
    rw [List.map_cons, proposals, proposals, hg.get, Instance.isNamed_rename]
    split
    · cases hk : r.keysOf h with
      | nil =>
        have hperm := hr.keysOf h
        rw [hk] at hperm
        rw [hperm.eq_nil]
        rfl
      | cons key aliases =>
        obtain ⟨aliases', hk', hperm⟩ := hr.aliases hk
        rw [hk']
        simp only [isUnwritable_perm hperm, candidate?_perm hperm, ih]
        split
        · rfl
        · cases proposals policy module g r hs with
          | error e => rfl
          | ok rest =>
            cases candidate? policy (g.get h) (key.text module) aliases with
            | none => rfl
            | some candidate => rfl
    · exact ih

/-- The first loop compares candidates. -/
theorem giveBare_rename (f : Handle → Handle) (taken : List String) (ps : List Proposal) :
    giveBare taken (ps.map (Proposal.rename f)) =
      ((giveBare taken ps).1.map fun given => (given.1.rename f, given.2),
        (giveBare taken ps).2.map (Proposal.rename f)) := by
  induction ps generalizing taken with
  | nil => rfl
  | cons p ps ih =>
    rw [List.map_cons, giveBare, giveBare]
    show (if taken.contains p.candidate then _ else _) = _
    split
    · simp only [ih]
      rfl
    · simp only [ih]
      rfl

/-- So does the second. -/
theorem giveNumbered_rename (f : Handle → Handle) (tries : Nat) (taken : List String)
    (ps : List Proposal) :
    giveNumbered tries taken (ps.map (Proposal.rename f)) =
      (giveNumbered tries taken ps).map
        (List.map fun given => (given.1.rename f, given.2)) := by
  induction ps generalizing taken with
  | nil => rfl
  | cons p ps ih =>
    rw [List.map_cons, giveNumbered, giveNumbered]
    have hcandidate : (p.rename f).candidate = p.candidate := rfl
    rw [hcandidate]
    cases numbered (fun name => !taken.contains name) p.candidate tries 2 with
    | none => rfl
    | some ident =>
      simp only [ih]
      cases giveNumbered tries (ident :: taken) ps with
      | error e => rfl
      | ok rest => rfl

/-- **Identifiers do not depend on handles**, nor on the order in which typedefs were met. -/
theorem allocate_rename (hg : Graph.Renames f g g') (hr : Registry.Renames f r r')
    (policy : Policy) (module : String) (hs : List Handle) :
    allocate policy module g' r' (hs.map f) =
      (allocate policy module g r hs).map (Assoc.rename f) := by
  have hsort (ps : List Proposal) : (ps.map (Proposal.rename f)).mergeSort Proposal.le =
      (ps.mergeSort Proposal.le).map (Proposal.rename f) := by
    refine (List.map_mergeSort ?_).symm
    intro a _ b _
    rfl
  have htable (given : List (Proposal × String)) (table : NameTable) :
      (given.map fun given => (given.1.rename f, given.2)).foldl
          (fun table given => table.put given.1.handle given.2) (Assoc.rename f table) =
        Assoc.rename f (given.foldl
          (fun table given => table.put given.1.handle given.2) table) := by
    induction given generalizing table with
    | nil => rfl
    | cons p given ih =>
      rw [List.map_cons, List.foldl_cons, List.foldl_cons, ← ih]
      congr 1
      exact Assoc.put_rename f.injective table p.1.handle p.2
  unfold allocate
  rw [proposals_rename hg hr]
  cases proposals policy module g r hs with
  | error e => rfl
  | ok ps =>
    simp only [bind, Except.bind, Except.map, pure, Except.pure, hsort, giveBare_rename,
      giveNumbered_rename, List.map_map]
    have htaken : ((giveBare policy.reserved (ps.mergeSort Proposal.le)).1.map
        (Prod.snd ∘ fun given => (given.1.rename f, given.2))) =
        (giveBare policy.reserved (ps.mergeSort Proposal.le)).1.map Prod.snd := rfl
    rw [htaken]
    cases giveNumbered policy.maxSuffix.toNat _ _ with
    | error e => rfl
    | ok numbered =>
      simp only [← List.map_append]
      exact congrArg Except.ok (htable _ [])

end

/-- The names of members are the same. -/
theorem members_rename {f : Handle ≃ Handle} {g g' : Graph} (hg : Graph.Renames f g g')
    (h : Handle) (reserved : List String) : members g' (f h) reserved = members g h reserved := by
  unfold members memberNames
  rw [hg.get]
  cases g.get h with
  | aggregate a =>
    simp only [Instance.rename, Aggregate.rename, List.map_map]
    rfl
  | _ => rfl

end Naming

end NativeTypes
