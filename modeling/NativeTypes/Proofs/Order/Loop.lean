/-
NativeTypes.Proofs.Order.Loop — the search as a loop ends and finds the
components.

A visit in the loop begins when a node is put on top of the work and ends
when it is gone from there; in between it is interrupted wherever one of its
edges leads to a new node. Induction on how deeply the nested visits would
be inside each other shows that the turns from the one moment to the other do
what the nested visit does (`Performs`, `performs_visit`): what lies below in
the work stays as it is, but that the node that waits has also reached what
the visit reached (`passed`). Inside a visit the induction is on the edges
that are left (`turns_resume`). No turn fails on the way: the nodes in the
work have been numbered and have reached something, and a node is on the
stack when it is left.

* `turns_visitAll` — from any roots the loop comes to where nothing is left
  to do, with the search that nested visits lead to.
* `components_correct` — what it has closed are the strongly connected
  components of the graph, each after those it has edges to.
-/
import Mathlib.Data.List.Nodup
import Mathlib.Data.List.Pairwise
import NativeTypes.Order.Components
import NativeTypes.Proofs.Order.Components

namespace NativeTypes.Components

variable {α : Type} [DecidableEq α] {next : α → List α} {all : List α} {n : Nat} {s : Search α}

/-! ## 1. Turns -/

omit [DecidableEq α] in
theorem drop_succ_of_drop_eq_cons {l ws : List α} {w : α} {k : Nat} (h : l.drop k = w :: ws) :
    l.drop (k + 1) = ws := by
  rw [← List.tail_drop, h, List.tail_cons]

theorem get?_number {v : α} (hv : Known s v) : s.number.get? v = some (num s v) := by
  obtain ⟨k, hk⟩ := Option.isSome_iff_exists.mp hv
  rw [num, hk, Option.getD_some]

/-- The stack is taken down to a node that is on it. -/
theorem takeDown?_of_mem {v : α} {stack : List α} (hv : v ∈ stack) :
    takeDown? v stack =
      some (stack.takeWhile (· ≠ v) ++ [v], (stack.dropWhile (· ≠ v)).drop 1) := by
  induction stack with
  | nil => cases hv
  | cons w ws ih =>
    by_cases hw : w = v
    · simp [takeDown?, hw]
    · rw [takeDown?, if_neg hw, ih ((List.mem_cons.mp hv).resolve_left (Ne.symm hw))]
      simp [hw]

/-- So a component is closed. -/
theorem closeDown?_of_mem {v : α} (hv : v ∈ s.stack) : closeDown? s v = some (close s v) := by
  rw [closeDown?, takeDown?_of_mem hv]
  rfl

namespace Loop

/-- The loop comes from one state to another. -/
abbrev Turns (next : α → List α) : Loop α → Loop α → Prop :=
  Relation.ReflTransGen fun l l' => l.turn? next = some l'

/-- The nodes in the work are numbered and have reached something. -/
def Waits (low : Assoc α Nat) (s : Search α) (work : List (α × Nat)) : Prop :=
  ∀ f ∈ work, Known s f.1 ∧ ∃ k, low.get? f.1 = some k

/-- What was numbered stays so. -/
theorem Waits.mono {low low' : Assoc α Nat} {s' : Search α} {work : List (α × Nat)}
    (h : Waits low s work) (hkeep : ∀ u, Known s u → Known s' u)
    (hlow : ∀ u k, Known s u → low.get? u = some k → ∃ k', low'.get? u = some k') :
    Waits low' s' work := by
  intro f hf
  obtain ⟨hknown, k, hk⟩ := h f hf
  exact ⟨hkeep f.1 hknown, hlow f.1 k hknown hk⟩

/-- What `u`, which has reached `k`, has reached when a visit on top of the work has reached `m`:
the node that waits for the visit takes it over. -/
def passed (work : List (α × Nat)) (u : α) (m k : Nat) : Nat :=
  if work.head?.any (·.1 = u) then min k m else k

/-- A node that does not wait on top has reached what it had. -/
theorem map_passed_of_ne {f : α × Nat} {u : α} (hu : f.1 ≠ u) (work : List (α × Nat)) (m : Nat)
    (reached : Option Nat) : reached.map (passed (f :: work) u m) = reached := by
  cases reached with
  | none => rfl
  | some k => simp [passed, hu]

/-- A node reaches the lesser of two. -/
theorem get?_lower {low : Assoc α Nat} {v : α} {k : Nat} (hv : low.get? v = some k) (m : Nat) :
    lower? low v m = some (low.put v (min k m)) := by
  rw [lower?, hv, Option.map_some]

/-- Leaving a node that is on the stack. -/
theorem leave?_eq (roots : List α) {work : List (α × Nat)} {low : Assoc α Nat} {v : α}
    {own least : Nat} (hown : s.number.get? v = some own) (hleast : low.get? v = some least)
    (hstack : v ∈ s.stack) (hwork : ∀ f ∈ work, ∃ k, low.get? f.1 = some k) :
    ∃ low', leave? v ⟨roots, work, low, s⟩ =
        some ⟨roots, work, low', if least = own then close s v else s⟩ ∧
      ∀ u, low'.get? u = (low.get? u).map (passed work u least) := by
  have hclose : (if least = own then closeDown? s v else some s) =
      some (if least = own then close s v else s) := by
    rw [closeDown?_of_mem hstack]
    split
    · rfl
    · rfl
  cases work with
  | nil =>
    refine ⟨low, ?_, fun u => ?_⟩
    · simp only [leave?, hown, hleast, hclose, passOn?, Option.bind_eq_bind, Option.bind_some]
    · exact (Option.map_id' (x := low.get? u)).symm
  | cons f work =>
    obtain ⟨k, hk⟩ := hwork f List.mem_cons_self
    refine ⟨low.put f.1 (min k least), ?_, fun u => ?_⟩
    · simp only [leave?, hown, hleast, hclose, passOn?, get?_lower hk, Option.bind_eq_bind,
        Option.bind_some]
    · rw [Assoc.get?_put]
      by_cases hu : f.1 = u
      · rw [if_pos hu, ← hu, hk]
        simp [passed]
      · rw [if_neg hu, map_passed_of_ne hu]

section

variable {roots : List α} {work : List (α × Nat)} {low : Assoc α Nat} {v w : α} {ws : List α}
  {k : Nat}

/-- An edge to a node that was met before is followed without a turn. -/
theorem resume?_known {low' : Assoc α Nat} {m : Nat} (hdrop : (next v).drop k = w :: ws)
    (hw : s.number.get? w = some m)
    (hlow : (if s.stack.contains w then lower? low v m else some low) = some low') :
    resume? next v k ⟨roots, work, low, s⟩ = resume? next v (k + 1) ⟨roots, work, low', s⟩ := by
  unfold resume?
  rw [hdrop, drop_succ_of_drop_eq_cons hdrop, scan?, hw]
  simp only [hlow, Option.bind_some]

/-- An edge to a new node interrupts the visit. -/
theorem resume?_new (hdrop : (next v).drop k = w :: ws) (hw : s.number.get? w = none) :
    resume? next v k ⟨roots, work, low, s⟩ =
      some ⟨roots, (w, 0) :: (v, k + 1) :: work, low, s⟩ := by
  unfold resume?
  rw [hdrop, scan?, hw]

/-- Without edges that are left the node is left. -/
theorem resume?_nil (hdrop : (next v).drop k = []) :
    resume? next v k ⟨roots, work, low, s⟩ = leave? v ⟨roots, work, low, s⟩ := by
  unfold resume?
  rw [hdrop, scan?]

end

end Loop

open Loop

/-! ## 2. Visits -/

/-- From a new node on top of the work the loop comes to where the node is gone, with what visiting
it leads to. -/
def Performs (next : α → List α) (all : List α) (n : Nat) : Prop :=
  ∀ (roots : List α) (work : List (α × Nat)) (low : Assoc α Nat) (s : Search α) (v : α),
    Valid next s → ¬Known s v → v ∈ all → unknown all s ≤ n → Waits low s work →
    ∃ low', Turns next ⟨roots, (v, 0) :: work, low, s⟩ ⟨roots, work, low', (visit next n v s).2⟩ ∧
      ∀ u, Known s u → low'.get? u = (low.get? u).map (passed work u (visit next n v s).1)

section

variable (hall : ∀ v ∈ all, ∀ w ∈ next v, w ∈ all) (hperforms : Performs next all n)
include hall hperforms

omit hall in
/-- A visit that `v` waits for: `v` has also reached what it reached. -/
theorem Performs.below {roots : List α} {work : List (α × Nat)} {low : Assoc α Nat} {v w : α}
    {k m : Nat} (hs : Valid next s) (hnew : ¬Known s w) (hw : w ∈ all) (hn : unknown all s ≤ n)
    (hknown : Known s v) (hlow : low.get? v = some m) (hwork : Waits low s work) :
    ∃ low', Turns next ⟨roots, (w, 0) :: (v, k + 1) :: work, low, s⟩
        ⟨roots, (v, k + 1) :: work, low', (visit next n w s).2⟩ ∧
      low'.get? v = some (min m (visit next n w s).1) ∧
      ∀ u ≠ v, Known s u → low'.get? u = low.get? u := by
  obtain ⟨low', hturns, hlow'⟩ := hperforms roots ((v, k + 1) :: work) low s w hs hnew hw hn
    (List.forall_mem_cons.mpr ⟨⟨hknown, m, hlow⟩, hwork⟩)
  refine ⟨low', hturns, ?_, fun u hu hku => ?_⟩
  · rw [hlow' v hknown, hlow]
    simp [passed]
  · rw [hlow' u hku, map_passed_of_ne (Ne.symm hu)]

/-- From the edges that are left on, the loop comes to where the node is left, with what following
them leads to. -/
theorem turns_resume {roots : List α} {work : List (α × Nat)} {v : α} (ws : List α)
    {low : Assoc α Nat} {k m : Nat} {s : Search α} {l : Loop α}
    (hturn : l.turn? next = resume? next v k ⟨roots, work, low, s⟩) (hdrop : (next v).drop k = ws)
    (hv : v ∈ all) (hs : Valid next s) (hknown : Known s v) (hlow : low.get? v = some m)
    (hwork : Waits low s work) (hn : unknown all s ≤ n) :
    ∃ low', low'.get? v = some (follow (visit next n) ws m s).1 ∧
      (∀ u ≠ v, Known s u → low'.get? u = low.get? u) ∧
      ∀ l', leave? v ⟨roots, work, low', (follow (visit next n) ws m s).2⟩ = some l' →
        Turns next l l' := by
  induction ws generalizing k m low s l with
  | nil =>
    rw [resume?_nil hdrop] at hturn
    exact ⟨low, hlow, fun _ _ _ => rfl, fun l' hl' => .single (hturn.trans hl')⟩
  | cons w ws ih =>
    have htail := drop_succ_of_drop_eq_cons hdrop
    have hw : w ∈ next v := by
      refine List.mem_of_mem_drop (i := k) ?_
      rw [hdrop]
      exact List.mem_cons_self
    -- whatever the edge leads to, it changes only what `v` has reached
    have hwaits : ∀ {low₁ : Assoc α Nat} {m₁ : Nat} {s₁ : Search α}, low₁.get? v = some m₁ →
        (∀ u ≠ v, Known s u → low₁.get? u = low.get? u) → (∀ u, Known s u → Known s₁ u) →
        Waits low₁ s₁ work := by
      intro low₁ m₁ s₁ hv₁ hsame hkeep
      refine hwork.mono hkeep fun u j hku hj => ?_
      by_cases hu : u = v
      · exact ⟨m₁, hu ▸ hv₁⟩
      · exact ⟨j, (hsame u hu hku).trans hj⟩
    cases hget : s.number.get? w with
    | none =>
      have hnew : ¬Known s w := by simp [Known, hget]
      have hvisited := visits_visit hall n s w hs hnew (hall v hv w hw) hn
      obtain ⟨new, hexplored, -⟩ := hvisited.explored
      have hkeep : ∀ u, Known s u → Known (visit next n w s).2 u := fun u hu =>
        (hexplored.number u hu).1
      obtain ⟨low₁, hturns, hlow₁, hsame⟩ := hperforms.below hs hnew
        (hall v hv w hw) hn hknown hlow hwork
      obtain ⟨low', hlow', hothers, hrest⟩ := ih (l := ⟨roots, (v, k + 1) :: work, low₁,
        (visit next n w s).2⟩) rfl htail hvisited.valid (hkeep v hknown) hlow₁
        (hwaits hlow₁ hsame hkeep) (Nat.le_trans (unknown_le all hkeep) hn)
      have hrun : follow (visit next n) (w :: ws) m s =
          follow (visit next n) ws (min m (visit next n w s).1) (visit next n w s).2 := by
        rw [follow, hget]
      rw [resume?_new hdrop hget] at hturn
      rw [hrun]
      exact ⟨low', hlow', fun u hu hku => (hothers u hu (hkeep u hku)).trans (hsame u hu hku),
        fun l' hl' => .head hturn (hturns.trans (hrest l' hl'))⟩
    | some j =>
      obtain ⟨low₁, hcount, hlow₁, hsame⟩ : ∃ low₁,
          (if s.stack.contains w then lower? low v j else some low) = some low₁ ∧
          low₁.get? v = some (if s.stack.contains w then min m j else m) ∧
          ∀ u ≠ v, low₁.get? u = low.get? u := by
        split
        · refine ⟨_, get?_lower hlow j, ?_, fun u hu => ?_⟩
          · rw [Assoc.get?_put, if_pos rfl]
          · rw [Assoc.get?_put, if_neg (Ne.symm hu)]
        · exact ⟨low, rfl, hlow, fun _ _ => rfl⟩
      rw [resume?_known hdrop hget hcount] at hturn
      obtain ⟨low', hlow', hothers, hrest⟩ := ih hturn htail hs hknown hlow₁
        (hwaits hlow₁ (fun u hu _ => hsame u hu) fun _ hu => hu) hn
      have hrun : follow (visit next n) (w :: ws) m s =
          follow (visit next n) ws (if s.stack.contains w then min m j else m) s := by
        rw [follow, hget]
      rw [hrun]
      exact ⟨low', hlow', fun u hu hku => (hothers u hu hku).trans (hsame u hu), hrest⟩

/-- A new node on top is numbered, its edges are followed, and it is left. -/
theorem performs_succ : Performs next all (n + 1) := by
  intro roots work low s v hs hv hmem hn hwork
  have hlen := length_discover hv
  have hroom : unknown all (discover s v) ≤ n := by
    have := unknown_discover_lt hv hmem
    omega
  have hdiscovered : ∀ u, Known s u → Known (discover s v) u := fun u hu =>
    (known_discover u).mpr (.inr hu)
  have hother : ∀ u, Known s u → u ≠ v := by
    rintro u hu rfl
    exact hv hu
  have hput : ∀ u, Known s u → (low.put v s.number.length).get? u = low.get? u := fun u hu => by
    rw [Assoc.get?_put, if_neg (Ne.symm (hother u hu))]
  have hfirst : (⟨roots, (v, 0) :: work, low, s⟩ : Loop α).turn? next =
      resume? next v 0 ⟨roots, work, low.put v s.number.length, discover s v⟩ := rfl
  have hfollowed := followed_follow (visits_visit hall n) (v := v) (next v) s.number.length
    (hs.discover hv) (fun w hw => ⟨hw, hall v hmem w hw⟩) (by omega) hroom
  obtain ⟨low₁, hlow₁, hothers, hturns⟩ := turns_resume hall hperforms (next v) hfirst
    List.drop_zero hmem (hs.discover hv) ((known_discover v).mpr (.inl rfl))
    (by rw [Assoc.get?_put, if_pos rfl])
    (hwork.mono hdiscovered fun u k hu hk => ⟨k, (hput u hu).trans hk⟩) hroom
  have hsame : ∀ u, Known s u → low₁.get? u = low.get? u := fun u hu =>
    (hothers u (hother u hu) (hdiscovered u hu)).trans (hput u hu)
  obtain ⟨new, hexplored⟩ := hfollowed.explored
  have hstack := hexplored.mem_stack (v := v) List.mem_cons_self
  have hown := get?_number hfollowed.number_self.1
  rw [hfollowed.number_self.2] at hown
  obtain ⟨low', hleave, hlow'⟩ := leave?_eq roots hown hlow₁ hstack
    fun f hf => hsame _ (hwork f hf).1 ▸ (hwork f hf).2
  refine ⟨low', hturns _ hleave, fun u hu => ?_⟩
  rw [hlow' u, hsame u hu]
  rfl

end

/-- **A visit in the loop** does what the nested visit does, however deep it is. -/
theorem performs_visit (hall : ∀ v ∈ all, ∀ w ∈ next v, w ∈ all) (n : Nat) :
    Performs next all n := by
  induction n with
  | zero =>
    intro _ _ _ s v _ hv hmem hn _
    have := unknown_discover_lt hv hmem
    omega
  | succ n ih => exact performs_succ hall ih

/-- From any roots the loop comes to where nothing is left to do, with what visiting them one after
the other leads to. -/
theorem turns_visitAll (hall : ∀ v ∈ all, ∀ w ∈ next v, w ∈ all) (roots : List α)
    (hroots : ∀ v ∈ roots, v ∈ all) (low : Assoc α Nat) {s : Search α} (hs : Valid next s)
    (hn : unknown all s ≤ n) :
    ∃ low', Turns next ⟨roots, [], low, s⟩ ⟨[], [], low', visitAll next n roots s⟩ := by
  induction roots generalizing low s with
  | nil => exact ⟨low, .refl⟩
  | cons v roots ih =>
    obtain ⟨hv, hroots⟩ := List.forall_mem_cons.mp hroots
    by_cases hknown : (s.number.get? v).isSome = true
    · obtain ⟨low', hturns⟩ := ih hroots low hs hn
      have hturn : (⟨v :: roots, [], low, s⟩ : Loop α).turn? next =
          some ⟨roots, [], low, s⟩ := if_pos hknown
      rw [visitAll, if_pos hknown]
      exact ⟨low', .head hturn hturns⟩
    · have hvisited := visits_visit hall n s v hs hknown hv hn
      obtain ⟨new, hexplored, -⟩ := hvisited.explored
      have hkeep : ∀ u, Known s u → Known (visit next n v s).2 u := fun u hu =>
        (hexplored.number u hu).1
      obtain ⟨low₁, hvisit, -⟩ := performs_visit hall n roots [] low s v hs hknown hv hn
        (fun f hf => by cases hf)
      obtain ⟨low', hturns⟩ := ih hroots low₁ hvisited.valid
        (Nat.le_trans (unknown_le all hkeep) hn)
      have hturn : (⟨v :: roots, [], low, s⟩ : Loop α).turn? next =
          some ⟨roots, [(v, 0)], low, s⟩ := if_neg hknown
      rw [visitAll, if_neg hknown]
      exact ⟨low', .head hturn (hvisit.trans hturns)⟩

/-! ## 3. Components -/

/-- The lists are the strongly connected components of a graph, each after those that it has edges
to. -/
structure Condenses (next : α → List α) (nodes : List α) (cs : List (List α)) : Prop where
  nonempty : ∀ c ∈ cs, c ≠ []
  partition : cs.flatten.Perm nodes
  together : ∀ v ∈ nodes, ∀ w ∈ nodes,
    (∃ c ∈ cs, v ∈ c ∧ w ∈ c) ↔ Reach next v w ∧ Reach next w v
  ordered : ∀ c ∈ cs, ∀ d ∈ cs, c ≠ d → ∀ v ∈ c, ∀ w ∈ d, w ∈ next v → [d, c].Sublist cs

variable {nodes : List α} {edges : Assoc α (Assoc α Bool)}

/-- No component is empty. -/
theorem components_nonempty (nodes : List α) (edges : Assoc α (Assoc α Bool)) {c : List α}
    (hc : c ∈ components nodes edges) : c ≠ [] := by
  obtain ⟨s, hs, hvalid, -⟩ := search_spec nodes edges
  exact hvalid.nonempty c (hs ▸ hc)

section

variable (hnodup : (components nodes edges).flatten.Nodup)
include hnodup

/-- A node is in one component only. -/
theorem component_eq {c d : List α} (hc : c ∈ components nodes edges)
    (hd : d ∈ components nodes edges) {v : α} (hvc : v ∈ c) (hvd : v ∈ d) : c = d := by
  refine Classical.byContradiction fun hne => ?_
  have hapart := (List.nodup_flatten.mp hnodup).2
  have : Std.Symm (List.Disjoint (α := α)) :=
    ⟨fun _ _ h _ hb ha => h ha hb⟩
  exact hapart.forall hc hd hne hvc hvd

/-- What reaches each other is in one component. -/
theorem exists_component_of_reach {v w : α} (hv : v ∈ (components nodes edges).flatten)
    (hvw : Reach (targets edges) v w) (hwv : Reach (targets edges) w v) :
    ∃ c ∈ components nodes edges, v ∈ c ∧ w ∈ c := by
  obtain ⟨c, hc, hvc⟩ := List.mem_flatten.mp hv
  obtain ⟨before, after, hsplit⟩ := List.append_of_mem hc
  have hupto : before ++ [c] <+: components nodes edges := ⟨after, by simp [hsplit]⟩
  have hbefore : before <+: components nodes edges := ⟨c :: after, hsplit.symm⟩
  have hw := components_closed nodes edges hupto (by simp [hvc]) hvw
  rw [List.flatten_append, List.flatten_singleton, List.mem_append] at hw
  rcases hw with hw | hwc
  · -- then `v` would be before its own component as well
    have hvbefore := components_closed nodes edges hbefore hw hwv
    rw [hsplit, List.flatten_append, List.nodup_append] at hnodup
    exact absurd rfl (hnodup.2.2 v hvbefore v (by simp [hvc]))
  · exact ⟨c, hc, hvc, hwc⟩

/-- An edge between components leads backwards. -/
theorem sublist_components {c d : List α} (hc : c ∈ components nodes edges)
    (hd : d ∈ components nodes edges) (hne : c ≠ d) {v w : α} (hvc : v ∈ c) (hwd : w ∈ d)
    (hedge : w ∈ targets edges v) : [d, c].Sublist (components nodes edges) := by
  obtain ⟨before, after, hsplit⟩ := List.append_of_mem hc
  have hupto : before ++ [c] <+: components nodes edges := ⟨after, by simp [hsplit]⟩
  have hw := components_ordered nodes edges hupto hvc hedge
  obtain ⟨e, he, hwe⟩ := List.mem_flatten.mp hw
  have heq : e = d := component_eq hnodup (hupto.subset he) hd hwe hwd
  rw [heq] at he
  have hdbefore : d ∈ before :=
    (List.mem_append.mp he).resolve_right fun h => hne (List.mem_singleton.mp h).symm
  rw [hsplit]
  exact (List.singleton_sublist.mpr hdbefore).append
    (List.singleton_sublist.mpr List.mem_cons_self)

end

/-- **The components of a graph** are its strongly connected components, each after those that it
has edges to, and the loop comes to where nothing is left to do and has closed them. -/
theorem components_correct (hnodes : nodes.Nodup)
    (hedges : ∀ v ∈ nodes, ∀ w ∈ targets edges v, w ∈ nodes) :
    Condenses (targets edges) nodes (components nodes edges) ∧
      ∃ (low : Assoc α Nat) (s : Search α),
        Turns (targets edges) { roots := nodes } { roots := [], work := [], low, search := s } ∧
        s.closed = components nodes edges := by
  have hperm := perm_flatten_components hnodes hedges
  have hnodup := hperm.nodup_iff.mpr hnodes
  refine ⟨⟨fun c hc => components_nonempty nodes edges hc, hperm, fun v hv w hw => ⟨?_, ?_⟩, ?_⟩,
    ?_⟩
  · rintro ⟨c, hc, hvc, hwc⟩
    exact ⟨components_strong nodes edges hc hvc hwc, components_strong nodes edges hc hwc hvc⟩
  · rintro ⟨hvw, hwv⟩
    exact exists_component_of_reach hnodup (hperm.mem_iff.mpr hv) hvw hwv
  · intro c hc d hd hne v hvc w hwd hedge
    exact sublist_components hnodup hc hd hne hvc hwd hedge
  · have hroom : unknown nodes {} ≤ nodes.length + (edges.flatMap Prod.snd).length + 1 := by
      have hcount : unknown nodes {} ≤ nodes.length := List.countP_le_length
      omega
    obtain ⟨low, hturns⟩ := turns_visitAll hedges nodes (fun v hv => hv) [] (valid_empty _) hroom
    exact ⟨low, _, hturns, rfl⟩

/-- A cycle with an edge to itself, parallel edges out of it, and nodes without edges. -/
def tangle : Assoc Nat (Assoc Nat Bool) :=
  [(0, [(1, true)]), (1, [(1, false), (2, false), (0, true), (2, true)]), (3, [(0, false)])]

theorem components_correct_tangle :
    (∀ v ∈ [3, 0, 1, 2, 4], ∀ w ∈ targets tangle v, w ∈ [3, 0, 1, 2, 4]) ∧
      components [3, 0, 1, 2, 4] tangle = [[2], [1, 0], [3], [4]] ∧
      Condenses (targets tangle) [3, 0, 1, 2, 4] (components [3, 0, 1, 2, 4] tangle) ∧
      ∃ (low : Assoc Nat Nat) (s : Search Nat),
        Turns (targets tangle) { roots := [3, 0, 1, 2, 4] }
          { roots := [], work := [], low, search := s } ∧
        s.closed = components [3, 0, 1, 2, 4] tangle := by
  have hedges : ∀ v ∈ [3, 0, 1, 2, 4], ∀ w ∈ targets tangle v, w ∈ [3, 0, 1, 2, 4] := by decide
  exact ⟨hedges, by decide, components_correct (by decide) hedges⟩

end NativeTypes.Components
