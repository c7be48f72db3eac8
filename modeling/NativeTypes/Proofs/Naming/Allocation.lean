/-
NativeTypes.Proofs.Naming.Allocation — identifiers are given once and in one
way.

Bare candidates and numbered ones are given by two loops that share what is
taken. `Given` says what either gives: an identifier to everyone, apart from
all others and from what was taken before. What two loops give one after the
other is given by one (`Given.append`), so that uniqueness needs nothing about
which names run into which. That a number is always left is counting: `n`
numbers lead to `n` names, and so many are not taken (`le_card_of_numbered`).
The order of the declarations is forgotten by the sort, as far as their keys
differ (`allocate_perm`).

One could hope to show the identifiers apart by their shapes, a candidate and a
number behind it. That fails: `Node_2` may be the candidate of one declaration
and the second name of another. So nothing is concluded from the shape of an
identifier; that it matches the rule for identifiers is the only thing the
shape is used for.

The order is forgotten in two steps. Proposals are computed one declaration at
a time, so permuted declarations give permuted proposals
(`exists_proposals_of_perm`); and a sort by candidate and text of the key has
one outcome where no two proposals agree in both (`Proposal.le_antisymm`,
`Proposes.eq_of_keyText`). The loops then see the same list.
-/
import Mathlib.Data.Finset.Card
import NativeTypes.Proofs.Naming.Identifiers
import NativeTypes.Proofs.Text.Sorted

namespace NativeTypes.Naming

/-! ## 1. Numbers

A candidate that is taken is tried with numbers behind it, from 2 on. Different numbers give
different names, so as many tries as there are taken names, and one more, find a free one. -/

/-- What is found was free, and is the candidate with a number. -/
theorem exists_of_numbered {free : String → Bool} {base ident : String} {tries n : Nat}
    (h : numbered free base tries n = some ident) : free ident ∧ ∃ k, ident = suffixed base k := by
  induction tries generalizing n with
  | zero => cases h
  | succ tries ih =>
    rw [numbered] at h
    split at h
    · rename_i hfree
      cases h
      exact ⟨hfree, n, rfl⟩
    · exact ih h

/-- Where nothing is found, everything that was tried was taken. -/
theorem taken_of_numbered {free : String → Bool} {base : String} {tries n k : Nat}
    (h : numbered free base tries n = none) (hk : k < tries) :
    free (suffixed base (n + k)) = false := by
  induction tries generalizing n k with
  | zero => cases hk
  | succ tries ih =>
    rw [numbered] at h
    split at h
    · cases h
    · rename_i hfree
      cases k with
      | zero => exact Bool.not_eq_true _ ▸ hfree
      | succ k =>
        have := ih h (Nat.lt_of_succ_lt_succ hk)
        rwa [Nat.add_right_comm] at this

/-- Numbers run out only where as many names are taken as were tried. -/
theorem le_card_of_numbered {taken : List String} {base : String} {tries n : Nat}
    (h : numbered (fun name => !taken.contains name) base tries n = none) :
    tries ≤ taken.toFinset.card := by
  have hinjective : Function.Injective fun k => suffixed base (n + k) := fun i j hij =>
    Nat.add_left_cancel (suffixed_injective base hij)
  have htaken : (Finset.range tries).image (fun k => suffixed base (n + k)) ⊆ taken.toFinset := by
    intro name hname
    obtain ⟨k, hk, rfl⟩ := Finset.mem_image.mp hname
    have := taken_of_numbered h (Finset.mem_range.mp hk)
    simpa using this
  calc
    tries = (Finset.range tries).card := (Finset.card_range tries).symm
    _ = ((Finset.range tries).image fun k => suffixed base (n + k)).card :=
      (Finset.card_image_of_injective _ hinjective).symm
    _ ≤ taken.toFinset.card := Finset.card_le_card htaken

/-! ## 2. What the loops give
 -/

/-- Everyone gets one identifier, apart from all others and from those taken. -/
structure Given (taken : List String) (ps : List Proposal) (given : List (Proposal × String)) :
    Prop where
  everyone : (given.map Prod.fst).Perm ps
  apart : (given.map Prod.snd).Nodup
  free : ∀ x ∈ given, x.2 ∉ taken
  shape : ∀ x ∈ given, x.2 = x.1.candidate ∨ ∃ n, x.2 = suffixed x.1.candidate n

namespace Given

variable {taken : List String} {ps qs : List Proposal} {xs ys : List (Proposal × String)}

theorem nil : Given taken [] [] :=
  ⟨.refl _, List.nodup_nil, nofun, nofun⟩

/-- A free name for one proposal. -/
theorem single {p : Proposal} {ident : String} (hfree : ident ∉ taken)
    (hshape : ident = p.candidate ∨ ∃ n, ident = suffixed p.candidate n) :
    Given taken [p] [(p, ident)] :=
  ⟨.refl _, List.nodup_singleton _, List.forall_mem_singleton.mpr hfree,
    List.forall_mem_singleton.mpr hshape⟩

/-- What is given later stays clear of what was given before. -/
theorem append (hx : Given taken ps xs) (hy : Given (xs.map Prod.snd ++ taken) qs ys) :
    Given taken (ps ++ qs) (xs ++ ys) where
  everyone := by
    rw [List.map_append]
    exact hx.everyone.append hy.everyone
  apart := by
    rw [List.map_append]
    refine hx.apart.append hy.apart fun ident hident hident' => ?_
    obtain ⟨y, hy', rfl⟩ := List.mem_map.mp hident'
    exact hy.free y hy' (List.mem_append_left _ hident)
  free := by
    intro z hz
    rcases List.mem_append.mp hz with hz | hz
    · exact hx.free z hz
    · exact fun hmem => hy.free z hz (List.mem_append_right _ hmem)
  shape := by
    intro z hz
    rcases List.mem_append.mp hz with hz | hz
    · exact hx.shape z hz
    · exact hy.shape z hz

end Given

/-- The first loop: whoever finds the candidate free takes it. -/
theorem given_giveBare (taken : List String) (ps : List Proposal) :
    Given taken ((giveBare taken ps).1.map Prod.fst) (giveBare taken ps).1 := by
  induction ps generalizing taken with
  | nil => exact .nil
  | cons p ps ih =>
    rw [giveBare]
    split
    · exact ih taken
    · rename_i hfree
      rw [List.contains_iff_mem] at hfree
      exact (Given.single hfree (.inl rfl)).append (ih (p.candidate :: taken))

/-- Nobody gets lost between the two loops. -/
theorem giveBare_perm (taken : List String) (ps : List Proposal) :
    ((giveBare taken ps).1.map Prod.fst ++ (giveBare taken ps).2).Perm ps := by
  induction ps generalizing taken with
  | nil => exact .refl _
  | cons p ps ih =>
    rw [giveBare]
    split
    · exact List.perm_middle.trans ((ih taken).cons p)
    · exact (ih (p.candidate :: taken)).cons p

/-- The first one of a candidate that is not taken keeps it. -/
theorem giveBare_first {taken : List String} {p : Proposal} {before after : List Proposal}
    (hfirst : ∀ q ∈ before, q.candidate ≠ p.candidate) (hfree : p.candidate ∉ taken) :
    (p, p.candidate) ∈ (giveBare taken (before ++ p :: after)).1 := by
  induction before generalizing taken with
  | nil =>
    rw [List.nil_append, giveBare, if_neg (by rwa [List.contains_iff_mem])]
    exact List.mem_cons_self
  | cons q before ih =>
    obtain ⟨hq, hbefore⟩ := List.forall_mem_cons.mp hfirst
    rw [List.cons_append, giveBare]
    split
    · exact ih hbefore hfree
    · refine List.mem_cons_of_mem _ (ih hbefore ?_)
      exact List.not_mem_cons_of_ne_of_not_mem (Ne.symm hq) hfree

/-- The second loop: the others, each with a number. By induction on the proposals, with what was
given so far among what is taken. -/
theorem given_giveNumbered {tries : Nat} {taken : List String} {ps : List Proposal}
    {given : List (Proposal × String)} (h : giveNumbered tries taken ps = .ok given) :
    Given taken ps given := by
  induction ps generalizing taken given with
  | nil =>
    cases h
    exact .nil
  | cons p ps ih =>
    rw [giveNumbered] at h
    cases hident : numbered (fun name => !taken.contains name) p.candidate tries 2 with
    | none =>
      rw [hident] at h
      cases h
    | some ident =>
      rw [hident] at h
      cases hrest : giveNumbered tries (ident :: taken) ps with
      | error e =>
        simp only [hrest] at h
        cases h
      | ok rest =>
        simp only [hrest] at h
        cases h
        obtain ⟨hfree, hshape⟩ := exists_of_numbered hident
        refine (Given.single ?_ (.inr hshape)).append (ih hrest)
        simpa using hfree

/-- So many tries as names may be taken are enough. -/
theorem exists_giveNumbered {tries : Nat} {taken : List String} {ps : List Proposal}
    (h : taken.toFinset.card + ps.length ≤ tries) :
    ∃ given, giveNumbered tries taken ps = .ok given := by
  induction ps generalizing taken with
  | nil => exact ⟨[], rfl⟩
  | cons p ps ih =>
    rw [List.length_cons] at h
    rw [giveNumbered]
    cases hident : numbered (fun name => !taken.contains name) p.candidate tries 2 with
    | none =>
      have := le_card_of_numbered hident
      omega
    | some ident =>
      have hcard : (ident :: taken).toFinset.card ≤ taken.toFinset.card + 1 := by
        rw [List.toFinset_cons]
        exact Finset.card_insert_le _ _
      have henough : (ident :: taken).toFinset.card + ps.length ≤ tries := by omega
      obtain ⟨rest, hrest⟩ := ih henough
      exact ⟨(p, ident) :: rest, by simp only [hrest]; rfl⟩

/-! ## 3. Proposals

What each declaration proposes depends on that declaration alone, though the first failure ends
the loop. So a list of proposals is taken apart into those of its declarations. -/

/-- The candidate of a registered instance. -/
def proposed (policy : Policy) (module : String) (g : Graph) (r : Registry Key) (h : Handle) :
    Except AllocationFault String :=
  candidateOf policy g h (r.keyText module h) (r.keysOf h).tail

section

variable {policy : Policy} {module : String} {g : Graph} {r : Registry Key}

/-- A candidate is an identifier. -/
theorem isIdentifier_proposed {h : Handle} {name : String}
    (hname : proposed policy module g r h = .ok name) : isIdentifier name := by
  unfold proposed candidateOf at hname
  split at hname
  · cases hname
  · split at hname
    · rename_i hcandidate
      cases hname
      exact isIdentifier_candidate? hcandidate
    · cases hname

/-- One declaration proposes on its own, before the others do. -/
theorem proposals_cons (h : Handle) (hs : List Handle) :
    proposals policy module g r (h :: hs) = do
      let own ← proposals policy module g r [h]
      let rest ← proposals policy module g r hs
      return own ++ rest := by
  rw [proposals, proposals]
  split
  · cases r.keysOf h with
    | nil => rfl
    | cons key aliases =>
      dsimp only
      split
      · rfl
      · rw [proposals]
        cases proposals policy module g r hs with
        | error e => cases candidate? policy (g.get h) (key.text module) aliases <;> rfl
        | ok rest => cases candidate? policy (g.get h) (key.text module) aliases <;> rfl
  · rw [proposals]
    cases proposals policy module g r hs <;> rfl

/-- The proposals of a list that came to an end. -/
theorem proposals_cons_ok {h : Handle} {hs : List Handle} {ps : List Proposal} :
    proposals policy module g r (h :: hs) = .ok ps ↔
      ∃ own rest, proposals policy module g r [h] = .ok own ∧
        proposals policy module g r hs = .ok rest ∧ ps = own ++ rest := by
  rw [proposals_cons]
  cases proposals policy module g r [h] with
  | error e => simp [bind, Except.bind]
  | ok own =>
    cases proposals policy module g r hs with
    | error e => simp [bind, Except.bind]
    | ok rest => simp [bind, Except.bind, pure, Except.pure, eq_comm]

/-- Each named instance proposes its candidate, once, with the text of its key. -/
structure Proposes (policy : Policy) (module : String) (g : Graph) (r : Registry Key)
    (hs : List Handle) (ps : List Proposal) : Prop where
  handles : ps.map Proposal.handle = hs.filter fun h => (g.get h).isNamed
  keyText : ∀ p ∈ ps, p.keyText = r.keyText module p.handle
  candidate : ∀ p ∈ ps, proposed policy module g r p.handle = .ok p.candidate

theorem candidate?_isSome (policy : Policy) {i : Instance} (h : i.isNamed) (keyText : String)
    (aliases : List Key) : ∃ name, candidate? policy i keyText aliases = some name := by
  cases i <;> first | exact ⟨_, rfl⟩ | cases h

/-- One declaration: none if it is not named, and one if it is. -/
theorem proposes_single {h : Handle} {ps : List Proposal}
    (hps : proposals policy module g r [h] = .ok ps) : Proposes policy module g r [h] ps := by
  rw [proposals] at hps
  split at hps
  · rename_i hnamed
    have hhandles : [h] = [h].filter fun h => (g.get h).isNamed := by simp [hnamed]
    split at hps
    · cases hps
    · rename_i key aliases hkeys
      have htext : r.keyText module h = key.text module := by
        simp [Registry.keyText, Registry.keyOf?, hkeys]
      obtain ⟨name, hname⟩ := candidate?_isSome policy hnamed (key.text module) aliases
      rw [hname] at hps
      cases hwritable : isUnwritable policy (g.get h) aliases with
      | true =>
        rw [hwritable] at hps
        cases hps
      | false =>
        rw [hwritable] at hps
        cases hps
        refine ⟨hhandles, List.forall_mem_singleton.mpr htext.symm,
          List.forall_mem_singleton.mpr ?_⟩
        simp [proposed, candidateOf, hkeys, htext, hname, hwritable]
  · rename_i hnamed
    cases hps
    exact ⟨by simp [hnamed], nofun, nofun⟩

/-- All declarations. -/
theorem proposes {hs : List Handle} {ps : List Proposal}
    (hps : proposals policy module g r hs = .ok ps) : Proposes policy module g r hs ps := by
  induction hs generalizing ps with
  | nil =>
    cases hps
    exact ⟨rfl, nofun, nofun⟩
  | cons h hs ih =>
    obtain ⟨own, rest, hown, hrest, rfl⟩ := proposals_cons_ok.mp hps
    have one := proposes_single hown
    have others := ih hrest
    refine ⟨?_, List.forall_mem_append.mpr ⟨one.keyText, others.keyText⟩,
      List.forall_mem_append.mpr ⟨one.candidate, others.candidate⟩⟩
    rw [List.map_append, one.handles, others.handles, ← List.filter_append]
    rfl

/-- The order of the declarations does not decide whether they can all propose, nor what. -/
theorem exists_proposals_of_perm {hs hs' : List Handle} (hperm : hs.Perm hs')
    {ps : List Proposal} (hps : proposals policy module g r hs = .ok ps) :
    ∃ ps', proposals policy module g r hs' = .ok ps' ∧ ps.Perm ps' := by
  induction hperm generalizing ps with
  | nil => exact ⟨ps, hps, .refl _⟩
  | cons h _ ih =>
    obtain ⟨own, rest, hown, hrest, rfl⟩ := proposals_cons_ok.mp hps
    obtain ⟨rest', hrest', hsame⟩ := ih hrest
    exact ⟨_, proposals_cons_ok.mpr ⟨own, rest', hown, hrest', rfl⟩, hsame.append_left own⟩
  | swap h h' hs =>
    obtain ⟨own', _, hown', hothers, rfl⟩ := proposals_cons_ok.mp hps
    obtain ⟨own, rest, hown, hrest, rfl⟩ := proposals_cons_ok.mp hothers
    refine ⟨_, proposals_cons_ok.mpr ⟨own, _, hown, proposals_cons_ok.mpr
      ⟨own', rest, hown', hrest, rfl⟩, rfl⟩, ?_⟩
    rw [← List.append_assoc, ← List.append_assoc]
    exact List.perm_append_comm.append_right rest
  | trans _ _ ih ih' =>
    obtain ⟨ps', hps', hsame⟩ := ih hps
    obtain ⟨ps'', hps'', hsame'⟩ := ih' hps'
    exact ⟨ps'', hps'', hsame.trans hsame'⟩

end

/-! ## 4. The order of proposals

Candidate first and the text of the key second, both by code points. -/

theorem Proposal.le_iff {a b : Proposal} : a.le b = true ↔
    a.candidate < b.candidate ∨ a.candidate = b.candidate ∧ a.keyText ≤ b.keyText := by
  simp [Proposal.le]

theorem Proposal.le_trans {a b c : Proposal} (hab : a.le b = true) (hbc : b.le c = true) :
    a.le c = true := by
  rw [le_iff] at *
  rcases hab with hab | ⟨hab, hkey⟩ <;> rcases hbc with hbc | ⟨hbc, hkey'⟩
  · exact .inl (String.lt_trans hab hbc)
  · exact .inl (hbc ▸ hab)
  · exact .inl (hab ▸ hbc)
  · exact .inr ⟨hab.trans hbc, String.le_trans hkey hkey'⟩

theorem Proposal.le_total (a b : Proposal) : (a.le b || b.le a) = true := by
  rw [Bool.or_eq_true, le_iff, le_iff]
  by_cases hab : a.candidate < b.candidate
  · exact .inl (.inl hab)
  · by_cases hba : b.candidate < a.candidate
    · exact .inr (.inl hba)
    · have heq := String.le_antisymm (String.not_lt.mp hba) (String.not_lt.mp hab)
      exact (String.le_total a.keyText b.keyText).imp (fun h => .inr ⟨heq, h⟩)
        (fun h => .inr ⟨heq.symm, h⟩)

/-- The sort sorts, as the order is total and transitive. -/
theorem Proposal.pairwise_mergeSort (ps : List Proposal) :
    (ps.mergeSort Proposal.le).Pairwise fun a b => a.le b = true :=
  @List.pairwise_mergeSort _ Proposal.le (fun _ _ _ => le_trans) le_total ps

/-- Proposals that stand both ways agree in candidate and key. -/
theorem Proposal.le_antisymm {a b : Proposal} (hab : a.le b = true) (hba : b.le a = true) :
    a.candidate = b.candidate ∧ a.keyText = b.keyText := by
  rw [le_iff] at *
  rcases hab with hab | ⟨hab, hkey⟩ <;> rcases hba with hba | ⟨hba, hkey'⟩
  · exact absurd (String.lt_trans hab hba) (String.lt_irrefl _)
  · exact absurd (hba ▸ hab) (String.lt_irrefl _)
  · exact absurd (hab ▸ hba) (String.lt_irrefl _)
  · exact ⟨hab, String.le_antisymm hkey hkey'⟩

/-! ## 5. The table

The table is filled by overwriting. Where no declaration is met twice nothing is overwritten, and
the table is the list of what was given. -/

/-- A list of what was given as a table. -/
def tableOf (given : List (Proposal × String)) : NameTable :=
  given.map fun x => (x.1.handle, x.2)

/-- A handle without an entry is entered at the end. -/
theorem put_fresh {table : NameTable} {h : Handle} {ident : String}
    (hfresh : h ∉ table.map Prod.fst) : Assoc.put table h ident = table ++ [(h, ident)] := by
  induction table with
  | nil => rfl
  | cons x table ih =>
    obtain ⟨hne, hfresh⟩ := List.ne_and_not_mem_of_not_mem_cons hfresh
    rw [Assoc.put, if_neg (Ne.symm hne), ih hfresh]
    rfl

theorem foldl_put {given : List (Proposal × String)} {table : NameTable}
    (hnodup : (table.map Prod.fst ++ given.map fun x => x.1.handle).Nodup) :
    given.foldl (fun table x => Assoc.put table x.1.handle x.2) table =
      table ++ tableOf given := by
  induction given generalizing table with
  | nil => exact (List.append_nil table).symm
  | cons x given ih =>
    have hfresh : x.1.handle ∉ table.map Prod.fst := fun hmem =>
      (List.nodup_append.mp hnodup).2.2 _ hmem _ List.mem_cons_self rfl
    rw [List.foldl_cons, put_fresh hfresh, ih, List.append_assoc]
    · rfl
    · rw [List.map_append, List.append_assoc]
      exact hnodup

/-- What a successful allocation has computed. -/
structure Allocated (policy : Policy) (module : String) (g : Graph) (r : Registry Key)
    (hs : List Handle) (table : NameTable) (ps : List Proposal) (xs : List (Proposal × String)) :
    Prop where
  proposals : proposals policy module g r hs = .ok ps
  given : Given policy.reserved (ps.mergeSort Proposal.le) xs
  bare : ∀ x ∈ (giveBare policy.reserved (ps.mergeSort Proposal.le)).1, x ∈ xs
  table : table = xs.foldl (fun table x => Assoc.put table x.1.handle x.2) []

section

variable {policy : Policy} {module : String} {g : Graph} {r : Registry Key} {hs : List Handle}
  {table : NameTable}

/-- An allocation that returns is one of its proposals, sorted, through both loops. -/
theorem exists_allocated (h : allocate policy module g r hs = .ok table) :
    ∃ ps xs, Allocated policy module g r hs table ps xs := by
  unfold allocate at h
  cases hps : proposals policy module g r hs with
  | error e =>
    rw [hps] at h
    cases h
  | ok ps =>
    simp only [hps, bind, Except.bind, pure, Except.pure] at h
    split at h
    · cases h
    · rename_i numbered hnumbered
      cases h
      have hbare := given_giveBare policy.reserved (ps.mergeSort Proposal.le)
      have hall := hbare.append (given_giveNumbered hnumbered)
      refine ⟨ps, _, hps, { hall with everyone := ?_ }, fun x hx => ?_, rfl⟩
      · exact hall.everyone.trans (giveBare_perm _ _)
      · exact List.mem_append_left _ hx

namespace Allocated

variable {ps : List Proposal} {xs : List (Proposal × String)}
  (ha : Allocated policy module g r hs table ps xs) (hnodup : hs.Nodup)
include ha

/-- What was given belongs to the named declarations, each once. -/
theorem handles_perm :
    (xs.map fun x => x.1.handle).Perm (hs.filter fun h => (g.get h).isNamed) := by
  rw [← (proposes ha.proposals).handles]
  have := (ha.given.everyone.trans (List.mergeSort_perm _ _)).map Proposal.handle
  rwa [List.map_map] at this

theorem mem_proposals {x : Proposal × String} (hx : x ∈ xs) : x.1 ∈ ps :=
  List.mem_mergeSort.mp (ha.given.everyone.mem_iff.mp (List.mem_map.mpr ⟨x, hx, rfl⟩))

include hnodup

/-- Without a declaration met twice, what was given is the table. -/
theorem table_eq : table = tableOf xs := by
  rw [ha.table, foldl_put]
  · rfl
  · exact ha.handles_perm.nodup_iff.mpr (hnodup.filter _)

end Allocated

/-! ## 6. Results
 -/

variable (hnodup : hs.Nodup) (h : allocate policy module g r hs = .ok table)
include hnodup h

/-- The named instances, and no others, get an identifier each. -/
theorem allocate_handles :
    (table.map Prod.fst).Perm (hs.filter fun h => (g.get h).isNamed) := by
  obtain ⟨ps, xs, ha⟩ := exists_allocated h
  have := ha.handles_perm
  rwa [ha.table_eq hnodup, tableOf, List.map_map]

/-- Exactly the named ones have an identifier. -/
theorem allocate_isSome_iff (x : Handle) :
    (table.get? x).isSome ↔ x ∈ hs ∧ (g.get x).isNamed := by
  rw [← Assoc.mem_keys_iff, (allocate_handles hnodup h).mem_iff, List.mem_filter]

/-- No identifier is given twice. -/
theorem allocate_nodup : (table.map Prod.snd).Nodup := by
  obtain ⟨ps, xs, ha⟩ := exists_allocated h
  have := ha.given.apart
  rwa [ha.table_eq hnodup, tableOf, List.map_map]

/-- Different instances get different identifiers. -/
theorem allocate_injective {a b : Handle} {ident : String} (hget : table.get? a = some ident)
    (hget' : table.get? b = some ident) : a = b := by
  have := List.inj_on_of_nodup_map (allocate_nodup hnodup h) (Assoc.mem_of_get? hget)
    (Assoc.mem_of_get? hget') rfl
  exact congrArg Prod.fst this

/-- No reserved name is given, and nothing that is no identifier. -/
theorem allocate_free {x : Handle} {ident : String} (hget : table.get? x = some ident) :
    ident ∉ policy.reserved ∧ isIdentifier ident := by
  obtain ⟨ps, xs, ha⟩ := exists_allocated h
  rw [ha.table_eq hnodup] at hget
  obtain ⟨y, hy, hxy⟩ := List.mem_map.mp (Assoc.mem_of_get? hget)
  cases hxy
  have hcandidate := isIdentifier_proposed
    ((proposes ha.proposals).candidate _ (ha.mem_proposals hy))
  refine ⟨ha.given.free y hy, ?_⟩
  rcases ha.given.shape y hy with hbare | ⟨n, hnumbered⟩
  · rwa [hbare]
  · rw [hnumbered]
    exact isIdentifier_suffixed hcandidate n

end

section

variable {policy : Policy} {module : String} {g : Graph} {r : Registry Key} {hs : List Handle}

theorem Proposes.mem_handles {ps : List Proposal} (hps : Proposes policy module g r hs ps)
    {p : Proposal} (hp : p ∈ ps) : p.handle ∈ hs ∧ (g.get p.handle).isNamed := by
  have hmem : p.handle ∈ ps.map Proposal.handle := List.mem_map.mpr ⟨p, hp, rfl⟩
  rwa [hps.handles, List.mem_filter] at hmem

variable (htexts : (hs.map (r.keyText module)).Nodup)
include htexts

/-- Where keys differ, a proposal is known by the text of its key. -/
theorem Proposes.eq_of_keyText {ps : List Proposal} (hps : Proposes policy module g r hs ps)
    {p q : Proposal} (hp : p ∈ ps) (hq : q ∈ ps) (htext : p.keyText = q.keyText) : p = q := by
  have hhandle : p.handle = q.handle := by
    refine List.inj_on_of_nodup_map htexts (hps.mem_handles hp).1 (hps.mem_handles hq).1 ?_
    rw [← hps.keyText p hp, ← hps.keyText q hq, htext]
  have hcandidate : p.candidate = q.candidate := by
    have := hps.candidate p hp
    rw [hhandle, hps.candidate q hq] at this
    exact (Except.ok.inj this).symm
  cases p
  cases q
  simp_all

/-- The one with the smallest key among those of a candidate keeps it bare. -/
theorem allocate_bare {table : NameTable} (h : allocate policy module g r hs = .ok table)
    {x : Handle} (hx : x ∈ hs) (hnamed : (g.get x).isNamed) {name : String}
    (hname : proposed policy module g r x = .ok name) (hfree : name ∉ policy.reserved)
    (hleast : ∀ y ∈ hs, (g.get y).isNamed → proposed policy module g r y = .ok name →
      r.keyText module x ≤ r.keyText module y) : table.get? x = some name := by
  obtain ⟨ps, xs, ha⟩ := exists_allocated h
  have hps := proposes ha.proposals
  have hnodup := List.Nodup.of_map _ htexts
  have hhandle : x ∈ ps.map Proposal.handle := by
    rw [hps.handles]
    exact List.mem_filter.mpr ⟨hx, hnamed⟩
  obtain ⟨p, hp, rfl⟩ := List.mem_map.mp hhandle
  obtain rfl : p.candidate = name := Except.ok.inj ((hps.candidate p hp).symm.trans hname)
  obtain ⟨before, after, hsplit⟩ := List.append_of_mem (List.mem_mergeSort.mpr hp)
  have hfirst : ∀ q ∈ before, q.candidate ≠ p.candidate := by
    intro q hq hcandidate
    have hsorted := Proposal.pairwise_mergeSort ps
    rw [hsplit] at hsorted
    have hqp := (List.pairwise_append.mp hsorted).2.2 q hq p List.mem_cons_self
    have hqs : q ∈ ps := by
      refine List.mem_mergeSort.mp (?_ : q ∈ ps.mergeSort Proposal.le)
      rw [hsplit]
      exact List.mem_append_left _ hq
    -- The key of `q` is at most that of `p`, and no smaller: so `q` is `p`, met twice.
    have hqtext : q.keyText ≤ p.keyText := by
      rcases Proposal.le_iff.mp hqp with hlt | ⟨-, hle⟩
      · exact absurd (hcandidate ▸ hlt) (String.lt_irrefl _)
      · exact hle
    have hptext : p.keyText ≤ q.keyText := by
      rw [hps.keyText p hp, hps.keyText q hqs]
      exact hleast _ (hps.mem_handles hqs).1 (hps.mem_handles hqs).2
        (hcandidate ▸ hps.candidate q hqs)
    obtain rfl := hps.eq_of_keyText htexts hqs hp (String.le_antisymm hqtext hptext)
    have hdistinct : ps.Nodup := by
      refine List.Nodup.of_map Proposal.handle ?_
      rw [hps.handles]
      exact hnodup.filter _
    rw [← (List.mergeSort_perm ps Proposal.le).nodup_iff, hsplit] at hdistinct
    exact (List.nodup_append.mp hdistinct).2.2 _ hq _ List.mem_cons_self rfl
  have hgiven : (p, p.candidate) ∈ xs := by
    refine ha.bare _ ?_
    rw [hsplit]
    exact giveBare_first hfirst hfree
  refine Assoc.get?_of_mem ((allocate_handles hnodup h).nodup_iff.mpr (hnodup.filter _)) ?_
  rw [ha.table_eq hnodup]
  exact List.mem_map.mpr ⟨_, hgiven, rfl⟩

/-- The order in which declarations come is forgotten. -/
theorem allocate_perm {table : NameTable} (h : allocate policy module g r hs = .ok table)
    {hs' : List Handle} (hperm : hs'.Perm hs) : allocate policy module g r hs' = .ok table := by
  obtain ⟨ps, xs, ha⟩ := exists_allocated h
  obtain ⟨ps', hps', hsame⟩ := exists_proposals_of_perm hperm.symm ha.proposals
  have hps := proposes ha.proposals
  have hsort : ps'.mergeSort Proposal.le = ps.mergeSort Proposal.le := by
    refine (@mergeSort_eq_of_antisymm _ Proposal.le (fun _ _ _ => Proposal.le_trans)
      Proposal.le_total _ _ hsame fun p hp q hq hpq hqp => ?_).symm
    exact hps.eq_of_keyText htexts hp hq (Proposal.le_antisymm hpq hqp).2
  unfold allocate at h ⊢
  rw [ha.proposals] at h
  rw [hps']
  simp only [bind, Except.bind, hsort] at h ⊢
  exact h

end

/-! ## 7. Numbers do not run out

The loops can only fail in one way, and the bound on the numbers rules that out. What can fail
before them are the proposals, of a typedef whose name cannot be written. -/

section

variable {policy : Policy} {module : String} {g : Graph} {r : Registry Key}

/-- Proposing does not count. -/
theorem proposals_ne_exhausted (hs : List Handle) (candidate keyText : String) :
    proposals policy module g r hs ≠ .error (.exhausted candidate keyText) := by
  induction hs with
  | nil => nofun
  | cons h hs ih =>
    rw [proposals]
    split
    · cases r.keysOf h with
      | nil => nofun
      | cons key aliases =>
        dsimp only
        cases isUnwritable policy (g.get h) aliases with
        | true => nofun
        | false =>
          cases hrest : proposals policy module g r hs with
          | error e =>
            rw [hrest] at ih
            exact ih
          | ok rest => cases candidate? policy (g.get h) (key.text module) aliases <;> nofun
    · exact ih

/-- Where nothing has an alias, nothing goes by a typedef that cannot be written. -/
theorem exists_proposals {hs : List Handle} (hkeys : ∀ h ∈ hs, ∃ key, r.keysOf h = [key]) :
    ∃ ps, proposals policy module g r hs = .ok ps := by
  induction hs with
  | nil => exact ⟨[], rfl⟩
  | cons h hs ih =>
    obtain ⟨rest, hrest⟩ := ih fun x hx => hkeys x (List.mem_cons_of_mem h hx)
    obtain ⟨key, hkey⟩ := hkeys h List.mem_cons_self
    have hwritable : isUnwritable policy (g.get h) [] = false := by
      simp [isUnwritable, firstTypedef?, typedefNames]
    rw [proposals, hkey, hrest]
    simp only [hwritable]
    split
    · cases candidate? policy (g.get h) (key.text module) [] with
      | none => exact ⟨_, rfl⟩
      | some candidate => exact ⟨_, rfl⟩
    · exact ⟨_, rfl⟩

/-- Where so many numbers are allowed as there are names to give or to avoid, none is missing. -/
theorem exists_allocate {hs : List Handle} {ps : List Proposal}
    (hps : proposals policy module g r hs = .ok ps)
    (hroom : (hs.length + policy.reserved.toFinset.card : Int) ≤ policy.maxSuffix) :
    ∃ table, allocate policy module g r hs = .ok table := by
  unfold allocate
  rw [hps]
  simp only [bind, Except.bind]
  generalize hloop : giveBare policy.reserved (ps.mergeSort Proposal.le) = loop
  have hlength : loop.1.length + loop.2.length ≤ hs.length := by
    have hperm := giveBare_perm policy.reserved (ps.mergeSort Proposal.le)
    have hhandles := congrArg List.length (proposes hps).handles
    have hfilter := List.length_filter_le (fun h => (g.get h).isNamed) hs
    have := hperm.length_eq
    rw [hloop, List.length_append, List.length_map, List.length_mergeSort] at this
    rw [List.length_map] at hhandles
    omega
  have htaken : (loop.1.map Prod.snd ++ policy.reserved).toFinset.card ≤
      loop.1.length + policy.reserved.toFinset.card := by
    rw [List.toFinset_append]
    refine (Finset.card_union_le _ _).trans (Nat.add_le_add_right ?_ _)
    exact (List.toFinset_card_le _).trans_eq (List.length_map _)
  have henough : (loop.1.map Prod.snd ++ policy.reserved).toFinset.card + loop.2.length ≤
      policy.maxSuffix.toNat := by omega
  obtain ⟨given, hgiven⟩ := exists_giveNumbered henough
  rw [hgiven]
  exact ⟨_, rfl⟩

/-- With that much room no allocation ends for want of a number, whatever else may end it. -/
theorem allocate_ne_exhausted {hs : List Handle}
    (hroom : (hs.length + policy.reserved.toFinset.card : Int) ≤ policy.maxSuffix)
    (candidate keyText : String) :
    allocate policy module g r hs ≠ .error (.exhausted candidate keyText) := by
  cases hps : proposals policy module g r hs with
  | error e =>
    intro h
    rw [allocate, hps] at h
    cases h
    exact proposals_ne_exhausted hs candidate keyText hps
  | ok ps =>
    obtain ⟨table, htable⟩ := exists_allocate hps hroom
    rw [htable]
    nofun

end

/-! ## 8. Allocation as a whole -/

/-- **Identifiers are given injectively, apart from reserved names and whatever the order.**
Where the keys of the instances have different texts: exactly the named instances get an
identifier, each its own, which is not reserved and matches `[A-Za-z_][A-Za-z0-9_]*`; the
smallest key of every candidate that is not reserved keeps it bare; and every order of the
instances leads to the same table. Numbers do not run out where as many are allowed as there
are instances and reserved names. -/
theorem allocate_correct (policy : Policy) (module : String) (g : Graph) (r : Registry Key)
    (hs : List Handle) :
    ((hs.map (r.keyText module)).Nodup →
      ∀ table, allocate policy module g r hs = .ok table →
        (∀ x, (table.get? x).isSome ↔ x ∈ hs ∧ (g.get x).isNamed) ∧
        (∀ a b ident, table.get? a = some ident → table.get? b = some ident → a = b) ∧
        (∀ x ident, table.get? x = some ident →
          ident ∉ policy.reserved ∧ isIdentifier ident) ∧
        (∀ x ∈ hs, (g.get x).isNamed → ∀ name, proposed policy module g r x = .ok name →
          name ∉ policy.reserved →
          (∀ y ∈ hs, (g.get y).isNamed → proposed policy module g r y = .ok name →
            r.keyText module x ≤ r.keyText module y) →
          table.get? x = some name) ∧
        (∀ hs', hs'.Perm hs → allocate policy module g r hs' = .ok table)) ∧
    ((hs.length + policy.reserved.toFinset.card : Int) ≤ policy.maxSuffix →
      ∀ candidate keyText,
        allocate policy module g r hs ≠ .error (.exhausted candidate keyText)) := by
  refine ⟨fun htexts table h => ?_, allocate_ne_exhausted⟩
  have hnodup := List.Nodup.of_map _ htexts
  refine ⟨allocate_isSome_iff hnodup h, fun _ _ _ => allocate_injective hnodup h,
    fun _ _ => allocate_free hnodup h, ?_, fun _ => allocate_perm htexts h⟩
  intro x hx hnamed name hname hfree hleast
  exact allocate_bare htexts h hx hnamed hname hfree hleast

/-- Two structures of one name in two scopes, and one that is called like the second of them
would be. -/
def crowded : Graph × Registry Key :=
  (⟨#[.aggregate ⟨"Node", "a", none, false, none, [], [], .complete, false⟩,
      .aggregate ⟨"Node", "b", none, false, none, [], [], .complete, false⟩,
      .aggregate ⟨"Node_2", "", none, false, none, [], [], .complete, false⟩]⟩,
    ((({} : Registry Key).bind (.named "a::Node") 0).bind (.named "b::Node") 1).bind
      (.named "Node_2") 2)

/-- One reserved name. -/
def sparse : Policy := ⟨true, ["class"], 10000⟩

theorem allocate_crowded : allocate sparse "m" crowded.1 crowded.2 [0, 1, 2] =
    .ok [(0, "Node"), (2, "Node_2"), (1, "Node_3")] := by
  have hps : proposals sparse "m" crowded.1 crowded.2 [0, 1, 2] =
      .ok [⟨"Node", "m!a::Node", 0⟩, ⟨"Node", "m!b::Node", 1⟩, ⟨"Node_2", "m!Node_2", 2⟩] := rfl
  -- The proposals stand in order already, so that sorting them needs no evaluation.
  have hsort : [(⟨"Node", "m!a::Node", 0⟩ : Proposal), ⟨"Node", "m!b::Node", 1⟩,
      ⟨"Node_2", "m!Node_2", 2⟩].mergeSort Proposal.le =
      [⟨"Node", "m!a::Node", 0⟩, ⟨"Node", "m!b::Node", 1⟩, ⟨"Node_2", "m!Node_2", 2⟩] := by
    refine List.mergeSort_of_pairwise ?_
    decide
  unfold allocate
  rw [hps]
  simp only [bind, Except.bind, hsort]
  rfl

/-- Met the other way round, the three get the same identifiers: `Node` is that of the smaller
key, and the other one steps over `Node_2`. -/
theorem allocate_correct_crowded :
    allocate sparse "m" crowded.1 crowded.2 [2, 1, 0] =
      .ok [(0, "Node"), (2, "Node_2"), (1, "Node_3")] ∧
    ∀ candidate keyText, allocate sparse "m" crowded.1 crowded.2 [2, 1, 0] ≠
      .error (.exhausted candidate keyText) := by
  have htexts : ([0, 1, 2].map (crowded.2.keyText "m")).Nodup := by decide
  have hgiven := (allocate_correct sparse "m" crowded.1 crowded.2 [0, 1, 2]).1 htexts _
    allocate_crowded
  have hroom : (([2, 1, 0] : List Handle).length + sparse.reserved.toFinset.card : Int) ≤
      sparse.maxSuffix := by decide
  exact ⟨hgiven.2.2.2.2 [2, 1, 0] (by decide),
    (allocate_correct sparse "m" crowded.1 crowded.2 [2, 1, 0]).2 hroom⟩

end NativeTypes.Naming
