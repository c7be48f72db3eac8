/-
NativeTypes.Proofs.Order.Components — the search for components is correct.

Two invariants carry the search. `Valid` holds between its steps: the nodes
that were discovered are on the stack, latest first, or in a closed component,
and a closed component is strongly connected and has edges only to itself and
to components closed before. `Explored` compares the state before some visits
with the state after them: nodes that were left on the stack have no edge to
anything older than `low`, and each of them reaches something older than
itself.

The usual argument speaks of the tree of visits and of the root of each
component in it. No tree is kept here and none is needed: what it would be used
for is said of the stack and of the numbers of its nodes. That a node closes
exactly its component is then two facts. All above it on the stack reach it,
because each reaches something older than itself, and following that downwards
cannot pass it (`reach_of_escape`); and nothing above it has an edge to
anything older, by the bound (`Valid.close`).

`Valid` alone is not preserved by following edges in any useful way: between
the discovery of a node and its closing nothing is said of its edges. That is
why the steps are stated as pairs of states (`Followed`, `Visited`), and the
two notions of `low` — what following returns and what a visit returns — are
kept apart.

* `followed_follow`, `visits_visit` — what following edges and visiting a node
  do, by induction on how deeply visits are nested and on the edges.
* `perm_flatten_components`, `components_ordered`, `components_strong` — the
  components of a graph partition its nodes, are closed dependencies first and
  are strongly connected.
-/
import Mathlib.Logic.Relation
import NativeTypes.Order.Components

namespace NativeTypes

theorem Assoc.length_put_new {α β : Type} [DecidableEq α] {m : Assoc α β} {a : α}
    (ha : m.get? a = none) (v : β) : (m.put a v).length = m.length + 1 := by
  induction m with
  | nil => rfl
  | cons p m ih =>
    obtain ⟨b, w⟩ := p
    by_cases hb : b = a
    · simp [Assoc.get?, hb] at ha
    · rw [Assoc.put, if_neg hb, List.length_cons, List.length_cons, ih]
      rwa [Assoc.get?, if_neg hb] at ha

namespace Components

variable {α : Type} [DecidableEq α] {next : α → List α} {s s' s'' : Search α}

/-! ## 1. Invariants
 -/

/-- `b` is reached from `a` along edges. -/
abbrev Reach (next : α → List α) : α → α → Prop :=
  Relation.ReflTransGen fun a b => b ∈ next a

/-- The node was discovered. -/
def Known (s : Search α) (v : α) : Prop := (s.number.get? v).isSome

/-- The number of a node that was discovered. -/
def num (s : Search α) (v : α) : Nat := (s.number.get? v).getD 0

/-- What holds of a search between its steps. -/
structure Valid (next : α → List α) (s : Search α) : Prop where
  nodup : (s.stack ++ s.closed.flatten).Nodup
  known : ∀ v, Known s v ↔ v ∈ s.stack ++ s.closed.flatten
  below : ∀ v, Known s v → num s v < s.number.length
  sorted : s.stack.Pairwise fun a b => num s b < num s a
  nonempty : ∀ c ∈ s.closed, c ≠ []
  ordered : ∀ before c, before ++ [c] <+: s.closed → ∀ v ∈ c, ∀ w ∈ next v,
    w ∈ (before ++ [c]).flatten
  strong : ∀ c ∈ s.closed, ∀ v ∈ c, ∀ w ∈ c, Reach next v w

/-- What some visits discover, with all that it has edges to. -/
structure Discovers (next : α → List α) (s s' : Search α) : Prop where
  number : ∀ v, Known s v → Known s' v ∧ num s' v = num s v
  length : s.number.length ≤ s'.number.length
  fresh : ∀ v, ¬Known s v → Known s' v → s.number.length ≤ num s' v
  closed : s.closed <+: s'.closed
  done : ∀ v, ¬Known s v → Known s' v → ∀ w ∈ next v, Known s' w

/-- What some visits do to a search: `new` is left on the stack, and no edge of it leads to
anything on the stack that is older than `low`. -/
structure Explored (next : α → List α) (s s' : Search α) (new : List α) (low : Nat) : Prop
    extends Discovers next s s' where
  stack : s'.stack = new ++ s.stack
  bound : ∀ v ∈ new, ∀ w ∈ next v, w ∈ s'.stack → low ≤ num s' w
  escape : ∀ v ∈ new, ∃ w ∈ s'.stack, num s' w < num s' v ∧ low ≤ num s' w ∧ Reach next v w

namespace Valid

theorem known_of_mem_stack (hs : Valid next s) {v : α} (hv : v ∈ s.stack) : Known s v :=
  (hs.known v).mpr (List.mem_append_left _ hv)

end Valid

namespace Explored

variable {new new' : List α} {low low' : Nat}

/-- Nothing was visited. -/
theorem refl (s : Search α) (low : Nat) : Explored next s s [] low where
  number := fun _ hv => ⟨hv, rfl⟩
  length := Nat.le_refl _
  fresh := fun _ hv hv' => absurd hv' hv
  stack := rfl
  closed := List.prefix_refl _
  done := fun _ hv hv' => absurd hv' hv
  bound := fun v hv => by cases hv
  escape := fun v hv => by cases hv

/-- A bound that is lower. -/
theorem lower (h : Explored next s s' new low) (hle : low' ≤ low) :
    Explored next s s' new low' :=
  { h with
    bound := fun v hv w hw hstack => Nat.le_trans hle (h.bound v hv w hw hstack)
    escape := fun v hv => by
      obtain ⟨w, hw, hlt, hlow, hreach⟩ := h.escape v hv
      exact ⟨w, hw, hlt, Nat.le_trans hle hlow, hreach⟩ }

/-- What is left on the stack was discovered meanwhile. -/
theorem not_known_of_mem (h : Explored next s s' new low) (hs : Valid next s)
    (hs' : Valid next s') {v : α} (hv : v ∈ new) : ¬Known s v := by
  intro hk
  have hnodup := hs'.nodup
  rw [h.stack, List.append_assoc] at hnodup
  have hrest := (List.nodup_append.mp hnodup).2.2 v hv
  rcases List.mem_append.mp ((hs.known v).mp hk) with hstack | hclosed
  · exact hrest v (List.mem_append_left _ hstack) rfl
  · obtain ⟨c, hc, hvc⟩ := List.mem_flatten.mp hclosed
    refine hrest v (List.mem_append_right _ ?_) rfl
    exact List.mem_flatten.mpr ⟨c, h.closed.subset hc, hvc⟩

/-- Visits take nothing off the stack that was there before them. -/
theorem mem_stack (h : Explored next s s' new low) {v : α} (hv : v ∈ s.stack) : v ∈ s'.stack := by
  rw [h.stack]
  exact List.mem_append_right _ hv

/-- Visits one after the other. -/
theorem trans (h : Explored next s s' new low) (h' : Explored next s' s'' new' low)
    (hs : Valid next s) (hs' : Valid next s') (hs'' : Valid next s'') :
    Explored next s s'' (new' ++ new) low where
  number := fun v hv => by
    obtain ⟨hk, hn⟩ := h.number v hv
    obtain ⟨hk', hn'⟩ := h'.number v hk
    exact ⟨hk', hn'.trans hn⟩
  length := Nat.le_trans h.length h'.length
  fresh := fun v hv hv'' => by
    by_cases hv' : Known s' v
    · rw [(h'.number v hv').2]
      exact h.fresh v hv hv'
    · exact Nat.le_trans h.length (h'.fresh v hv' hv'')
  stack := by rw [h'.stack, h.stack, List.append_assoc]
  closed := h.closed.trans h'.closed
  done := fun v hv hv'' w hw => by
    by_cases hv' : Known s' v
    · exact (h'.number w (h.done v hv hv' w hw)).1
    · exact h'.done v hv' hv'' w hw
  bound := fun v hv w hw hstack => by
    rcases List.mem_append.mp hv with hv | hv
    · exact h'.bound v hv w hw hstack
    · -- the targets of an older node were known already, so they are not new now
      have hv' : Known s' v := hs'.known_of_mem_stack (h.stack ▸ List.mem_append_left _ hv)
      have hw' := h.done v (h.not_known_of_mem hs hs' hv) hv' w hw
      rw [h'.stack] at hstack
      rcases List.mem_append.mp hstack with hnew | hold
      · exact absurd hw' (h'.not_known_of_mem hs' hs'' hnew)
      · rw [(h'.number w hw').2]
        exact h.bound v hv w hw hold
  escape := fun v hv => by
    rcases List.mem_append.mp hv with hv | hv
    · exact h'.escape v hv
    · obtain ⟨w, hw, hlt, hlow, hreach⟩ := h.escape v hv
      have hv' : Known s' v := hs'.known_of_mem_stack (h.stack ▸ List.mem_append_left _ hv)
      have hw' := (h'.number w (hs'.known_of_mem_stack hw)).2
      refine ⟨w, h'.mem_stack hw, ?_, hw' ▸ hlow, hreach⟩
      rw [hw', (h'.number v hv').2]
      exact hlt

end Explored

/-! ## 2. Discovering and closing

The number of a node is how many were discovered before it, so numbers grow along the stack and a
new node has the largest. The nodes that are not discovered yet bound how deeply visits nest. -/

/-- Room for visits inside each other: so many nodes of `all` are not discovered yet. -/
def unknown (all : List α) (s : Search α) : Nat :=
  all.countP fun v => (s.number.get? v).isNone

/-- The room does not grow. -/
theorem unknown_le (all : List α) (h : ∀ v, Known s v → Known s' v) :
    unknown all s' ≤ unknown all s := by
  refine List.countP_mono_left fun v _ hv => ?_
  cases hn : s.number.get? v with
  | none => rfl
  | some n =>
    have hk := h v (by simp [Known, hn])
    rw [Known, Option.isSome_iff_ne_none] at hk
    exact absurd (Option.isNone_iff_eq_none.mp hv) hk

section

variable {v : α}

theorem known_discover (w : α) : Known (discover s v) w ↔ w = v ∨ Known s w := by
  unfold Known discover
  rw [Assoc.get?_put]
  split
  · rename_i h
    simp [h]
  · rename_i h
    simp [Ne.symm h]

theorem num_discover (w : α) :
    num (discover s v) w = if w = v then s.number.length else num s w := by
  unfold num discover
  rw [Assoc.get?_put]
  by_cases h : v = w
  · simp [h]
  · simp [h, Ne.symm h]

variable (hv : ¬Known s v)
include hv

theorem get?_number_of_not_known : s.number.get? v = none := by
  simpa [Known] using hv

theorem length_discover : (discover s v).number.length = s.number.length + 1 :=
  Assoc.length_put_new (get?_number_of_not_known hv) _

/-- Each visit inside another takes room. -/
theorem unknown_discover_lt {all : List α} (hall : v ∈ all) :
    unknown all (discover s v) < unknown all s := by
  have hmono : ∀ w, Known s w → Known (discover s v) w := fun w hw =>
    (known_discover w).mpr (Or.inr hw)
  obtain ⟨before, after, rfl⟩ := List.append_of_mem hall
  have hbefore := unknown_le before hmono
  have hafter := unknown_le after hmono
  have hold : ((s.number.get? v).isNone) = true := by
    rw [get?_number_of_not_known hv]
    rfl
  have hnew : (((discover s v).number.get? v).isNone) = false := by
    rw [discover, Assoc.get?_put, if_pos rfl]
    rfl
  unfold unknown at hbefore hafter ⊢
  rw [List.countP_append, List.countP_append, List.countP_cons, List.countP_cons, hold, hnew]
  simp only [if_true, Bool.false_eq_true, if_false]
  omega

/-- A discovered node stands on top of the stack and has no component yet. -/
theorem Valid.discover (hs : Valid next s) : Valid next (discover s v) where
  nodup := by
    have hnot := mt (hs.known v).mpr hv
    exact List.nodup_cons.mpr ⟨hnot, hs.nodup⟩
  known := fun w => by
    rw [known_discover, hs.known w]
    exact List.mem_cons.symm
  below := fun w hw => by
    rw [length_discover hv, num_discover]
    split
    · exact Nat.lt_succ_self _
    · rename_i hne
      exact Nat.lt_succ_of_lt (hs.below w (((known_discover w).mp hw).resolve_left hne))
  sorted := by
    have hne : ∀ w ∈ s.stack, w ≠ v := by
      rintro w hw rfl
      exact hv (hs.known_of_mem_stack hw)
    refine List.pairwise_cons.mpr ⟨fun w hw => ?_, ?_⟩
    · rw [num_discover, num_discover, if_pos rfl, if_neg (hne w hw)]
      exact hs.below w (hs.known_of_mem_stack hw)
    · refine hs.sorted.imp_of_mem fun {a b} ha hb hlt => ?_
      rw [num_discover, num_discover, if_neg (hne a ha), if_neg (hne b hb)]
      exact hlt
  nonempty := hs.nonempty
  ordered := hs.ordered
  strong := hs.strong

end

/-! ## 3. Following edges

The edges of a node are followed one after the other. An edge leads to a node that is met for the
first time, which is visited; or to one that was met before, which counts if it is still on the
stack. A node that was met before and is off the stack lies in a component that is closed, and
cannot reach `v` any more. -/

/-- What following edges of `v` does; `low'` is the least number reached. -/
structure Followed (next : α → List α) (s s' : Search α) (v : α) (ws : List α)
    (low low' : Nat) : Prop where
  valid : Valid next s'
  low_le : low' ≤ low
  known : ∀ w ∈ ws, Known s' w ∧ (w ∈ s'.stack → low' ≤ num s' w)
  reach : ∀ w, ¬Known s w → Known s' w → Reach next v w
  attained : low' = low ∨ ∃ w ∈ s'.stack, num s' w = low' ∧ Reach next v w
  explored : ∃ new, Explored next s s' new low'

/-- What visiting `v` does: a node that reaches nothing older than itself leaves nothing on the
stack. -/
structure Visited (next : α → List α) (s s' : Search α) (v : α) (low : Nat) : Prop where
  valid : Valid next s'
  known : Known s' v ∧ num s' v = s.number.length
  reach : ∀ w, ¬Known s w → Known s' w → Reach next v w
  low_le : low ≤ s.number.length
  attained : low = s.number.length ∨ ∃ w ∈ s.stack, num s w = low ∧ Reach next v w
  explored : ∃ new, Explored next s s' new low ∧ (low = s.number.length → new = [])

/-- Visiting is as described as long as there is room for it. -/
def Visits (next : α → List α) (all : List α) (n : Nat) : Prop :=
  ∀ (s : Search α) (v : α), Valid next s → ¬Known s v → v ∈ all → unknown all s ≤ n →
    Visited next s (visit next n v s).2 v (visit next n v s).1

/-- Following an edge to a node that is met for the first time, and then the rest. -/
theorem Followed.after_visit {s₁ s₂ : Search α} {v w : α} {ws : List α} {low reached low' : Nat}
    (hs : Valid next s) (hedge : Reach next v w) (hlow : low < s.number.length)
    (hw : Visited next s s₁ w reached) (h : Followed next s₁ s₂ v ws (min low reached) low') :
    Followed next s s₂ v (w :: ws) low low' := by
  obtain ⟨new₁, he₁, -⟩ := hw.explored
  obtain ⟨new₂, he₂⟩ := h.explored
  have hle : low' ≤ reached := Nat.le_trans h.low_le (Nat.min_le_right _ _)
  refine ⟨h.valid, Nat.le_trans h.low_le (Nat.min_le_left _ _), ?_, ?_, ?_, new₂ ++ new₁,
    (he₁.lower hle).trans he₂ hs hw.valid h.valid⟩
  · intro u hu
    rcases List.mem_cons.mp hu with rfl | hu
    · obtain ⟨hk, hnum⟩ := he₂.number u hw.known.1
      refine ⟨hk, fun _ => ?_⟩
      rw [hnum, hw.known.2]
      exact Nat.le_trans hle hw.low_le
    · exact h.known u hu
  · intro u hu hu₂
    by_cases hu₁ : Known s₁ u
    · exact hedge.trans (hw.reach u hu hu₁)
    · exact h.reach u hu₁ hu₂
  · rcases h.attained with heq | hex
    · rcases Nat.le_total low reached with hmin | hmin
      · exact Or.inl (heq.trans (Nat.min_eq_left hmin))
      · -- then the visit reached something on the stack, as `low` is older than `w`
        rw [Nat.min_eq_right hmin] at heq
        rcases hw.attained with hown | ⟨u, hu, hnum, hreach⟩
        · exact absurd (Nat.lt_of_le_of_lt hmin hlow) (hown ▸ Nat.lt_irrefl _)
        · have hu₁ := he₁.number u (hs.known_of_mem_stack hu)
          refine Or.inr ⟨u, he₂.mem_stack (he₁.mem_stack hu), ?_, hedge.trans hreach⟩
          rw [(he₂.number u hu₁.1).2, hu₁.2, hnum, heq]
    · exact Or.inr hex

/-- Following an edge to a node that was met before, and then the rest: the edge counts if the
node is still on the stack. -/
theorem Followed.after_known {s' : Search α} {v w : α} {ws : List α} {low low₁ low' : Nat}
    (hs : Valid next s) (hedge : Reach next v w) (hknown : Known s w) (hle : low₁ ≤ low)
    (hbound : w ∈ s.stack → low₁ ≤ num s w)
    (hsource : low₁ = low ∨ w ∈ s.stack ∧ low₁ = num s w)
    (h : Followed next s s' v ws low₁ low') : Followed next s s' v (w :: ws) low low' := by
  obtain ⟨new, he⟩ := h.explored
  refine ⟨h.valid, Nat.le_trans h.low_le hle, ?_, h.reach, ?_, new, he⟩
  · intro u hu
    rcases List.mem_cons.mp hu with rfl | hu
    · refine ⟨(he.number u hknown).1, fun hstack => ?_⟩
      rw [he.stack] at hstack
      have hold : u ∈ s.stack := (List.mem_append.mp hstack).resolve_left fun hnew =>
        he.not_known_of_mem hs h.valid hnew hknown
      rw [(he.number u hknown).2]
      exact Nat.le_trans h.low_le (hbound hold)
    · exact h.known u hu
  · rcases h.attained with heq | hex
    · rcases hsource with hsame | ⟨hstack, hm⟩
      · exact Or.inl (heq.trans hsame)
      · exact Or.inr ⟨w, he.mem_stack hstack,
          (he.number w hknown).2.trans (hm.symm.trans heq.symm), hedge⟩
    · exact Or.inr hex

section

variable {all : List α} {n : Nat} (hvisit : Visits next all n) {v : α}
include hvisit

/-- By induction on the edges that are left, with what a visit does as the hypothesis. -/
theorem followed_follow (ws : List α) (low : Nat) (hs : Valid next s)
    (hws : ∀ w ∈ ws, w ∈ next v ∧ w ∈ all) (hlow : low < s.number.length)
    (hn : unknown all s ≤ n) :
    Followed next s (follow (visit next n) ws low s).2 v ws low
      (follow (visit next n) ws low s).1 := by
  induction ws generalizing low s with
  | nil =>
    exact ⟨hs, Nat.le_refl _, fun w hw => (by cases hw), fun w hw hw' => absurd hw' hw, Or.inl rfl,
      [], Explored.refl s low⟩
  | cons w ws ih =>
    have hedge : Reach next v w := .single (hws w (by simp)).1
    have hws' : ∀ u ∈ ws, u ∈ next v ∧ u ∈ all := fun u hu => hws u (by simp [hu])
    cases hw : s.number.get? w with
    | none =>
      have hunknown : ¬Known s w := by simp [Known, hw]
      have hw₁ := hvisit s w hs hunknown (hws w (by simp)).2 hn
      have hrun : follow (visit next n) (w :: ws) low s =
          follow (visit next n) ws (min low (visit next n w s).1) (visit next n w s).2 := by
        rw [follow, hw]
      rw [hrun]
      obtain ⟨new₁, he₁, -⟩ := hw₁.explored
      have hkeep : ∀ u, Known s u → Known (visit next n w s).2 u := fun u hu => (he₁.number u hu).1
      refine Followed.after_visit hs hedge hlow hw₁ (ih _ hw₁.valid hws' ?_ ?_)
      · exact Nat.lt_of_le_of_lt (Nat.min_le_left _ _) (Nat.lt_of_lt_of_le hlow he₁.length)
      · exact Nat.le_trans (unknown_le all hkeep) hn
    | some m =>
      have hknown : Known s w := by simp [Known, hw]
      have hnum : num s w = m := by simp [num, hw]
      have hrun : follow (visit next n) (w :: ws) low s =
          follow (visit next n) ws (if s.stack.contains w then min low m else low) s := by
        rw [follow, hw]
      rw [hrun, ← hnum]
      by_cases hstack : w ∈ s.stack
      · rw [if_pos (by simpa using hstack)]
        refine Followed.after_known hs hedge hknown (Nat.min_le_left _ _)
          (fun _ => Nat.min_le_right _ _) ?_
          (ih _ hs hws' (Nat.lt_of_le_of_lt (Nat.min_le_left _ _) hlow) hn)
        exact (Nat.le_total low (num s w)).imp Nat.min_eq_left fun hle =>
          ⟨hstack, Nat.min_eq_right hle⟩
      · rw [if_neg (by simpa using hstack)]
        exact Followed.after_known hs hedge hknown (Nat.le_refl _)
          (fun hc => absurd hc hstack) (Or.inl rfl) (ih _ hs hws' hlow hn)

end

/-! ## 4. Visiting
 -/

/-- Closing takes off the stack what lies above the node, and the node. -/
theorem close_eq {v : α} {new rest : List α} (hstack : s.stack = new ++ v :: rest)
    (hv : v ∉ new) :
    close s v = { s with stack := rest, closed := s.closed ++ [new ++ [v]] } := by
  have hne : ∀ w ∈ new, decide (w ≠ v) = true := by
    intro w hw
    exact decide_eq_true fun he => hv (he ▸ hw)
  unfold close
  rw [hstack, List.takeWhile_append_of_pos hne, List.dropWhile_append_of_pos hne]
  simp

/-- Closing the component of a node whose edges, and those of all above it, lead to nothing
older. -/
theorem Valid.close (hs : Valid next s) {v : α} {new rest : List α}
    (hstack : s.stack = new ++ v :: rest)
    (hedges : ∀ w ∈ new ++ [v], ∀ u ∈ next w, Known s u ∧ (u ∈ s.stack → num s v ≤ num s u))
    (hstrong : ∀ w ∈ new, Reach next v w ∧ Reach next w v) :
    Valid next { s with stack := rest, closed := s.closed ++ [new ++ [v]] } := by
  have hperm : (s.stack ++ s.closed.flatten).Perm
      (rest ++ (s.closed ++ [new ++ [v]]).flatten) := by
    rw [hstack, List.flatten_append, List.flatten_singleton]
    have hsplit : new ++ v :: rest ++ s.closed.flatten =
        (new ++ [v]) ++ (rest ++ s.closed.flatten) := by simp
    rw [hsplit, ← List.append_assoc rest]
    exact List.perm_append_comm
  have hsorted := hs.sorted
  rw [hstack] at hsorted
  obtain ⟨-, htail, -⟩ := List.pairwise_append.mp hsorted
  obtain ⟨holder, hrest⟩ := List.pairwise_cons.mp htail
  refine ⟨hperm.nodup_iff.mp hs.nodup, fun w => (hs.known w).trans hperm.mem_iff, hs.below, hrest,
    ?_, ?_, ?_⟩
  · intro c hc
    rcases List.mem_append.mp hc with hc | hc
    · exact hs.nonempty c hc
    · rw [List.mem_singleton.mp hc]
      simp
  · intro before c hprefix w hw u hu
    rcases List.prefix_concat_iff.mp hprefix with heq | hold
    · obtain ⟨rfl, hc⟩ := List.append_inj' heq rfl
      cases hc
      obtain ⟨hk, hbound⟩ := hedges w hw u hu
      rw [List.flatten_append, List.flatten_singleton]
      rcases List.mem_append.mp ((hs.known u).mp hk) with hmem | hclosed
      · -- what is on the stack and not older is in the component
        refine List.mem_append_right _ ?_
        have hle := hbound hmem
        rw [hstack] at hmem
        rcases List.mem_append.mp hmem with hnew | hmem
        · exact List.mem_append_left _ hnew
        · rcases List.mem_cons.mp hmem with rfl | hmem
          · simp
          · exact absurd (holder u hmem) (Nat.not_lt.mpr hle)
      · exact List.mem_append_left _ hclosed
    · exact hs.ordered before c hold w hw u hu
  · intro c hc w hw u hu
    rcases List.mem_append.mp hc with hc | hc
    · exact hs.strong c hc w hw u hu
    · rw [List.mem_singleton.mp hc] at hw hu
      have hroot : ∀ x ∈ new ++ [v], Reach next v x ∧ Reach next x v := by
        intro x hx
        rcases List.mem_append.mp hx with hx | hx
        · exact hstrong x hx
        · rw [List.mem_singleton.mp hx]
          exact ⟨.refl, .refl⟩
      exact (hroot w hw).2.trans (hroot u hu).1

/-- Whoever reaches something older, above a node that does not, reaches that node. -/
theorem reach_of_escape {v : α} {new rest : List α} (hs : Valid next s)
    (hstack : s.stack = new ++ v :: rest)
    (hescape : ∀ w ∈ new, ∃ u ∈ s.stack, num s u < num s w ∧ num s v ≤ num s u ∧
      Reach next w u) : ∀ w ∈ new, Reach next w v := by
  have hsorted := hs.sorted
  rw [hstack] at hsorted
  obtain ⟨-, htail, -⟩ := List.pairwise_append.mp hsorted
  obtain ⟨holder, -⟩ := List.pairwise_cons.mp htail
  intro w
  induction hm : num s w using Nat.strongRecOn generalizing w with
  | ind m ih =>
    intro hw
    obtain ⟨u, hu, hlt, hle, hreach⟩ := hescape w hw
    rw [hstack] at hu
    rcases List.mem_append.mp hu with hnew | hu
    · exact hreach.trans (ih (num s u) (hm ▸ hlt) u rfl hnew)
    · rcases List.mem_cons.mp hu with rfl | hu
      · exact hreach
      · exact absurd (holder u hu) (Nat.not_lt.mpr hle)

section

variable {v : α} {low : Nat} (hs : Valid next s) (hv : ¬Known s v)
  (hf : Followed next (discover s v) s' v (next v) s.number.length low)
include hf

/-- What is discovered when `v` is and its edges are followed. -/
theorem Followed.reach_discover (w : α) (hw : ¬Known s w) (hw' : Known s' w) :
    Reach next v w := by
  by_cases hwv : w = v
  · exact hwv ▸ .refl
  · exact hf.reach w (fun hk => hw (((known_discover w).mp hk).resolve_left hwv)) hw'

/-- The node keeps the number that it got when it was discovered. -/
theorem Followed.number_self : Known s' v ∧ num s' v = s.number.length := by
  obtain ⟨new, he⟩ := hf.explored
  have hnum := he.number v ((known_discover v).mpr (Or.inl rfl))
  rwa [num_discover, if_pos rfl] at hnum

include hv

/-- What following leaves behind, seen from before the node was discovered. -/
theorem Followed.discovers : Discovers next s s' := by
  have hnum := hf.number_self
  obtain ⟨new, he⟩ := hf.explored
  have hlen := length_discover hv
  refine ⟨fun w hw => ?_, Nat.le_trans (by omega) he.length, fun w hw hw' => ?_, he.closed,
    fun w hw hw' => ?_⟩
  · have hw' := he.number w ((known_discover w).mpr (Or.inr hw))
    rw [num_discover, if_neg (by rintro rfl; exact hv hw)] at hw'
    exact hw'
  · by_cases hwv : w = v
    · exact hwv ▸ Nat.le_of_eq hnum.2.symm
    · have := he.fresh w (fun hk => hw (((known_discover w).mp hk).resolve_left hwv)) hw'
      omega
  · by_cases hwv : w = v
    · rw [hwv]
      exact fun u hu => (hf.known u hu).1
    · exact he.done w (fun hk => hw (((known_discover w).mp hk).resolve_left hwv)) hw'

include hs

/-- A node that reaches something older stays on the stack. -/
theorem Followed.visited_open (hlow : low ≠ s.number.length) : Visited next s s' v low := by
  have hd := hf.discovers hv
  have hnum := hf.number_self
  have hlen := length_discover hv
  obtain ⟨new, he⟩ := hf.explored
  have hstack : s'.stack = new ++ v :: s.stack := he.stack
  obtain ⟨w, hw, hwlow, hwreach⟩ := hf.attained.resolve_left hlow
  have hwold : w ∈ s.stack := by
    rw [hstack] at hw
    have hle := hf.low_le
    rcases List.mem_append.mp hw with hnew | hw
    · -- new nodes are younger than `v`
      have hfresh := he.fresh w (he.not_known_of_mem (hs.discover hv) hf.valid hnew)
        (hf.valid.known_of_mem_stack (hstack ▸ List.mem_append_left _ hnew))
      omega
    · refine (List.mem_cons.mp hw).resolve_left ?_
      rintro rfl
      exact hlow (hwlow.symm.trans hnum.2)
  have hwnum := (hd.number w (hs.known_of_mem_stack hwold)).2
  refine ⟨hf.valid, hnum, hf.reach_discover, hf.low_le,
    Or.inr ⟨w, hwold, hwnum ▸ hwlow, hwreach⟩, new ++ [v],
    { hd with stack := by simp [hstack], bound := ?_, escape := ?_ }, fun h => absurd h hlow⟩
  · intro u hu x hx hmem
    rcases List.mem_append.mp hu with hu | hu
    · exact he.bound u hu x hx hmem
    · rw [List.mem_singleton.mp hu] at hx
      exact (hf.known x hx).2 hmem
  · intro u hu
    rcases List.mem_append.mp hu with hu | hu
    · exact he.escape u hu
    · rw [List.mem_singleton.mp hu]
      refine ⟨w, hstack ▸ hw, ?_, Nat.le_of_eq hwlow.symm, hwreach⟩
      rw [hwlow, hnum.2]
      exact Nat.lt_of_le_of_ne hf.low_le hlow

/-- A node that does not closes its component. -/
theorem Followed.visited_close (hlow : low = s.number.length) :
    Visited next s (Components.close s' v) v low := by
  have hd := hf.discovers hv
  have hnum := hf.number_self
  obtain ⟨new, he⟩ := hf.explored
  have hstack : s'.stack = new ++ v :: s.stack := he.stack
  have hunknown : ∀ w ∈ new, ¬Known (discover s v) w := fun w hw =>
    he.not_known_of_mem (hs.discover hv) hf.valid hw
  have hvnew : v ∉ new := fun hmem => hunknown v hmem ((known_discover v).mpr (Or.inl rfl))
  have hnew : ∀ w ∈ new, Known s' w := fun w hw =>
    hf.valid.known_of_mem_stack (hstack ▸ List.mem_append_left _ hw)
  have hle : num s' v = low := hnum.2.trans hlow.symm
  have hvalid := hf.valid.close hstack (fun w hw u hu => ?_) (fun w hw => ?_)
  · rw [close_eq hstack hvnew]
    exact ⟨hvalid, hnum, hf.reach_discover, hf.low_le, Or.inl hlow, [],
      { hd with
        closed := hd.closed.trans (List.prefix_append _ _)
        stack := rfl
        bound := fun w hw => (by cases hw)
        escape := fun w hw => (by cases hw) }, fun _ => rfl⟩
  · rw [hle]
    rcases List.mem_append.mp hw with hw | hw
    · exact ⟨he.done w (hunknown w hw) (hnew w hw) u hu, he.bound w hw u hu⟩
    · rw [List.mem_singleton.mp hw] at hu
      exact hf.known u hu
  · refine ⟨hf.reach w (hunknown w hw) (hnew w hw), ?_⟩
    exact reach_of_escape hf.valid hstack (hle ▸ he.escape) w hw

end

/-- **Visiting a node** explores all that it reaches. -/
theorem visits_visit {all : List α} (hall : ∀ v ∈ all, ∀ w ∈ next v, w ∈ all) (n : Nat) :
    Visits next all n := by
  induction n with
  | zero =>
    intro s v _ hv hmem hn
    have := unknown_discover_lt hv hmem
    omega
  | succ n ih =>
    intro s v hs hv hmem hn
    have hlen := length_discover hv
    have hroom : unknown all (discover s v) ≤ n := by
      have := unknown_discover_lt hv hmem
      omega
    have hf := followed_follow ih (v := v) (next v) s.number.length (hs.discover hv)
      (fun w hw => ⟨hw, hall v hmem w hw⟩) (by omega) hroom
    have hrun : visit next (n + 1) v s =
        ((follow (visit next n) (next v) s.number.length (discover s v)).1,
          if (follow (visit next n) (next v) s.number.length (discover s v)).1 = s.number.length
          then Components.close
            (follow (visit next n) (next v) s.number.length (discover s v)).2 v
          else (follow (visit next n) (next v) s.number.length (discover s v)).2) := rfl
    rw [hrun]
    generalize (follow (visit next n) (next v) s.number.length (discover s v)).2 = s₁ at hf ⊢
    generalize (follow (visit next n) (next v) s.number.length (discover s v)).1 = low at hf ⊢
    split
    · rename_i hlow
      exact hf.visited_close hs hv hlow
    · rename_i hlow
      exact hf.visited_open hs hv hlow

/-- Visiting from outside leaves nothing on the stack. -/
theorem visitAll_spec {all : List α} (hall : ∀ v ∈ all, ∀ w ∈ next v, w ∈ all) {n : Nat}
    (vs : List α) (hvs : ∀ v ∈ vs, v ∈ all) (hs : Valid next s) (hstack : s.stack = [])
    (hn : unknown all s ≤ n) :
    Valid next (visitAll next n vs s) ∧ (visitAll next n vs s).stack = [] ∧
      (∀ w, Known s w ∨ w ∈ vs → Known (visitAll next n vs s) w) ∧
      ∀ w, Known (visitAll next n vs s) w → Known s w ∨ ∃ v ∈ vs, Reach next v w := by
  induction vs generalizing s with
  | nil => exact ⟨hs, hstack, fun w hw => hw.resolve_right (by simp), fun w hw => Or.inl hw⟩
  | cons v vs ih =>
    have hvs' : ∀ u ∈ vs, u ∈ all := fun u hu => hvs u (by simp [hu])
    rw [visitAll]
    split
    · rename_i hknown
      obtain ⟨hvalid, hempty, hforth, hback⟩ := ih hvs' hs hstack hn
      refine ⟨hvalid, hempty, fun w hw => hforth w ?_, fun w hw => ?_⟩
      · rcases hw with hw | hw
        · exact Or.inl hw
        · rcases List.mem_cons.mp hw with rfl | hw
          · exact Or.inl hknown
          · exact Or.inr hw
      · exact (hback w hw).imp_right fun ⟨u, hu, hreach⟩ => ⟨u, by simp [hu], hreach⟩
    · rename_i hunknown
      have hv := visits_visit hall n s v hs hunknown (hvs v (by simp)) hn
      generalize (visit next n v s).2 = s₁ at hv ⊢
      obtain ⟨new, he, hnew⟩ := hv.explored
      -- nothing older than the first node of a visit is on the stack
      have hlow := hv.attained.resolve_right fun ⟨w, hw, _⟩ => by
        rw [hstack] at hw
        cases hw
      have hstack₁ : s₁.stack = [] := by rw [he.stack, hnew hlow, hstack, List.nil_append]
      have hkeep : ∀ w, Known s w → Known s₁ w := fun w hw => (he.number w hw).1
      obtain ⟨hvalid, hempty, hforth, hback⟩ :=
        ih hvs' hv.valid hstack₁ (Nat.le_trans (unknown_le all hkeep) hn)
      refine ⟨hvalid, hempty, fun w hw => hforth w ?_, fun w hw => ?_⟩
      · rcases hw with hw | hw
        · exact Or.inl (hkeep w hw)
        · rcases List.mem_cons.mp hw with rfl | hw
          · exact Or.inl hv.known.1
          · exact Or.inr hw
      · rcases hback w hw with hw₁ | ⟨u, hu, hreach⟩
        · by_cases hw₀ : Known s w
          · exact Or.inl hw₀
          · exact Or.inr ⟨v, by simp, hv.reach w hw₀ hw₁⟩
        · exact Or.inr ⟨u, by simp [hu], hreach⟩

/-! ## 5. Components

The search starts with nothing discovered and visits each node of the graph from an empty stack.
What `Valid` says of the closed components at its end is the result. -/

/-- Nothing is discovered at first. -/
theorem valid_empty (next : α → List α) : Valid next ({} : Search α) where
  nodup := List.nodup_nil
  known := fun v => by simp [Known]
  below := fun v hv => by simp [Known] at hv
  sorted := List.Pairwise.nil
  nonempty := fun c hc => by cases hc
  ordered := fun before c hprefix => by simp at hprefix
  strong := fun c hc => by cases hc

variable {nodes : List α} {edges : Assoc α (Assoc α Bool)}

/-- The end of the search for the components of a graph. -/
theorem search_spec (nodes : List α) (edges : Assoc α (Assoc α Bool)) :
    ∃ s : Search α, s.closed = components nodes edges ∧ Valid (targets edges) s ∧
      s.stack = [] ∧ (∀ v ∈ nodes, Known s v) ∧
      ∀ w, Known s w → ∃ v ∈ nodes, Reach (targets edges) v w := by
  let all := nodes ++ (edges.flatMap Prod.snd).map Prod.fst
  have hall : ∀ v ∈ all, ∀ w ∈ targets edges v, w ∈ all := by
    intro v _ w hw
    obtain ⟨e, he, rfl⟩ := List.mem_map.mp hw
    refine List.mem_append_right _ (List.mem_map.mpr ⟨e, ?_, rfl⟩)
    cases hget : edges.get? v with
    | none =>
      rw [hget] at he
      cases he
    | some out =>
      rw [hget] at he
      exact List.mem_flatMap.mpr ⟨(v, out), Assoc.mem_of_get? hget, he⟩
  have hroom : unknown all {} ≤ nodes.length + (edges.flatMap Prod.snd).length + 1 := by
    refine Nat.le_trans (List.countP_le_length) ?_
    simp [all]
  obtain ⟨hvalid, hstack, hforth, hback⟩ := visitAll_spec hall nodes
    (fun v hv => List.mem_append_left _ hv) (valid_empty _) rfl hroom
  refine ⟨_, rfl, hvalid, hstack, fun v hv => hforth v (Or.inr hv), fun w hw => ?_⟩
  exact (hback w hw).resolve_left (by simp [Known])

/-- **The components of a graph partition its nodes.** -/
theorem perm_flatten_components (hnodes : nodes.Nodup)
    (htargets : ∀ v ∈ nodes, ∀ w ∈ targets edges v, w ∈ nodes) :
    (components nodes edges).flatten.Perm nodes := by
  obtain ⟨s, hs, hvalid, hstack, hknown, hreach⟩ := search_spec nodes edges
  have hnodup := hvalid.nodup
  rw [hstack, List.nil_append, hs] at hnodup
  refine (List.perm_ext_iff_of_nodup hnodup hnodes).mpr fun w => ?_
  have hmem := hvalid.known w
  rw [hstack, List.nil_append, hs] at hmem
  rw [← hmem]
  constructor
  · intro hw
    obtain ⟨v, hv, hpath⟩ := hreach w hw
    clear hmem hw
    induction hpath with
    | refl => exact hv
    | tail _ hedge ih => exact htargets _ ih _ hedge
  · exact hknown w

/-- Components stand after all that they have edges to. -/
theorem components_ordered (nodes : List α) (edges : Assoc α (Assoc α Bool))
    {before : List (List α)} {c : List α} (hc : before ++ [c] <+: components nodes edges) {v w : α}
    (hv : v ∈ c) (hw : w ∈ targets edges v) : w ∈ (before ++ [c]).flatten := by
  obtain ⟨s, hs, hvalid, -⟩ := search_spec nodes edges
  exact hvalid.ordered before c (hs ▸ hc) v hv w hw

/-- Nodes of one component reach each other. -/
theorem components_strong (nodes : List α) (edges : Assoc α (Assoc α Bool)) {c : List α}
    (hc : c ∈ components nodes edges) {v w : α} (hv : v ∈ c) (hw : w ∈ c) :
    Reach (targets edges) v w := by
  obtain ⟨s, hs, hvalid, -⟩ := search_spec nodes edges
  exact hvalid.strong c (hs ▸ hc) v hv w hw

/-- Components up to one have everything that they reach. -/
theorem components_closed (nodes : List α) (edges : Assoc α (Assoc α Bool))
    {before : List (List α)} (hbefore : before <+: components nodes edges) {v w : α}
    (hv : v ∈ before.flatten) (hpath : Reach (targets edges) v w) : w ∈ before.flatten := by
  induction hpath with
  | refl => exact hv
  | @tail u w _ hedge ih =>
    obtain ⟨c, hc, hu⟩ := List.mem_flatten.mp ih
    obtain ⟨first, rest, rfl⟩ := List.append_of_mem hc
    have hfirst : first ++ [c] <+: first ++ c :: rest := ⟨rest, by simp⟩
    have hw := components_ordered nodes edges (hfirst.trans hbefore) hu hedge
    obtain ⟨d, hd, hwd⟩ := List.mem_flatten.mp hw
    exact List.mem_flatten.mpr ⟨d, hfirst.subset hd, hwd⟩

end Components

end NativeTypes
