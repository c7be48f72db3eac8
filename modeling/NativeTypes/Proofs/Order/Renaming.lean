/-
NativeTypes.Proofs.Order.Renaming — the order of declarations does not depend
on handles.

Declarations are ordered by a search for components and, inside of a component,
by picking the least of those that nothing is missing for. Both are functions
of a graph whose nodes are handles; here it is shown that under other handles
they give the same order, under the other handles.

For the search this is so without any condition. It visits nodes in the order
of a list and of the edges, and compares nodes only for equality. So every step
commutes with an injective function on the nodes (`discover_rename`,
`close_rename`, `follow_rename`, `visit_rename`), and so do the components
(`components_rename`). The induction is on the depth of the search, as in the
definition of `visit`.

Inside a component nodes are taken by their keys. Keys are texts, and the same
for an instance under its new handle; but where two keys are equal the handles
decide, and these are others now. So it is needed that keys tell the nodes
apart (`KeysDiffer`), and then the least one is the same (`least?_rename`) and
the whole order is (`place_rename`, by the induction of `place`). Together:
`Emission.order_rename`.
-/
import NativeTypes.Order.Emission
import NativeTypes.Proofs.Instance.Renaming
import NativeTypes.Proofs.Order.Emission

namespace NativeTypes

/-! ## 1. Components

The state of a search holds numbers, a stack and the components that were closed; renaming goes
through all of them. -/

namespace Components

variable {α β : Type} [DecidableEq α] [DecidableEq β] {f : α → β} (hf : f.Injective)

/-- The state of a search over other nodes. -/
def Search.rename (f : α → β) (s : Search α) : Search β where
  number := Assoc.rename f s.number
  stack := s.stack.map f
  closed := s.closed.map (List.map f)

section

include hf

/-- A node is given its number and put on the stack. -/
theorem discover_rename (s : Search α) (v : α) :
    discover (s.rename f) (f v) = (discover s v).rename f := by
  unfold discover Search.rename
  simp only [Assoc.put_rename hf, List.map_cons]
  congr 2
  simp [Assoc.rename]

/-- A component is taken off the stack down to its first node, which is found by comparing. -/
theorem close_rename (s : Search α) (v : α) : close (s.rename f) (f v) = (close s v).rename f := by
  have hne : (fun w => decide (w ≠ f v)) ∘ f = fun w => decide (w ≠ v) := by
    funext w
    simp [hf.eq_iff]
  unfold close Search.rename
  simp only [List.dropWhile_map, List.takeWhile_map, hne, List.map_drop, List.map_append,
    List.map_cons, List.map_nil]

variable {visit : α → Search α → Nat × Search α} {visit' : β → Search β → Nat × Search β}

/-- The edges of a node are followed in order, if visiting commutes. -/
theorem follow_rename
    (hvisit : ∀ v s, visit' (f v) (s.rename f) = ((visit v s).1, (visit v s).2.rename f))
    (ws : List α) (low : Nat) (s : Search α) :
    follow visit' (ws.map f) low (s.rename f) =
      ((follow visit ws low s).1, (follow visit ws low s).2.rename f) := by
  induction ws generalizing low s with
  | nil => rfl
  | cons w ws ih =>
    have hnumber : (s.rename f).number.get? (f w) = s.number.get? w :=
      Assoc.get?_rename hf s.number w
    have hstack : (s.rename f).stack.contains (f w) = s.stack.contains w := by
      rw [Bool.eq_iff_iff, List.contains_iff_mem, List.contains_iff_mem]
      exact List.mem_map_of_injective hf
    rw [List.map_cons, follow, follow, hnumber]
    cases s.number.get? w with
    | none =>
      simp only [hvisit]
      exact ih _ _
    | some n =>
      simp only [hstack]
      exact ih _ _

variable {next : α → List α} {next' : β → List β} (hnext : ∀ v, next' (f v) = (next v).map f)
include hnext

/-- By induction on the depth that the search may go to. -/
theorem visit_rename (n : Nat) (v : α) (s : Search α) :
    Components.visit next' n (f v) (s.rename f) =
      ((Components.visit next n v s).1, (Components.visit next n v s).2.rename f) := by
  induction n generalizing v s with
  | zero => rfl
  | succ n ih =>
    have hlength : (s.rename f).number.length = s.number.length := List.length_map _
    rw [Components.visit, Components.visit, hnext, discover_rename hf, hlength,
      follow_rename hf ih]
    simp only
    split
    · rw [close_rename hf]
    · rfl

/-- Nodes that were not visited yet are visited in the order of the list. -/
theorem visitAll_rename (bound : Nat) (vs : List α) (s : Search α) :
    visitAll next' bound (vs.map f) (s.rename f) = (visitAll next bound vs s).rename f := by
  induction vs generalizing s with
  | nil => rfl
  | cons v vs ih =>
    have hnumber : (s.rename f).number.get? (f v) = s.number.get? v :=
      Assoc.get?_rename hf s.number v
    rw [List.map_cons, visitAll, visitAll, hnumber, visit_rename hf hnext]
    split
    · exact ih s
    · exact ih _

end

/-- The map with other nodes at both ends of the edges. -/
def renameEdges (f : α → β) (edges : Assoc α (Assoc α Bool)) : Assoc β (Assoc β Bool) :=
  Assoc.rename f (edges.map fun e => (e.1, Assoc.rename f e.2))

include hf in
/-- The edges from a node are looked up by comparing. -/
theorem targets_rename (edges : Assoc α (Assoc α Bool)) (v : α) :
    targets (renameEdges f edges) (f v) = (targets edges v).map f := by
  unfold targets renameEdges
  rw [Assoc.get?_rename hf]
  induction edges with
  | nil => rfl
  | cons e edges ih =>
    obtain ⟨b, out⟩ := e
    rw [List.map_cons, Assoc.get?, Assoc.get?]
    split
    · simp [Assoc.rename]
    · exact ih

include hf in
/-- **The components of a graph under other names are its components under these names.** -/
theorem components_rename (nodes : List α) (edges : Assoc α (Assoc α Bool)) :
    components (nodes.map f) (renameEdges f edges) =
      (components nodes edges).map (List.map f) := by
  have hbound : ((renameEdges f edges).flatMap Prod.snd).length =
      (edges.flatMap Prod.snd).length := by
    unfold renameEdges Assoc.rename
    rw [List.length_flatMap, List.length_flatMap, List.map_map, List.map_map]
    refine congrArg List.sum (List.map_congr_left fun e _ => ?_)
    simp
  unfold components
  simp only [List.length_map, hbound]
  have hall := visitAll_rename hf (targets_rename hf edges)
    (nodes.length + (edges.flatMap Prod.snd).length + 1) nodes {}
  exact congrArg Search.closed hall

end Components

/-! ## 2. Inside a component

From here on the nodes are handles with keys, and the renaming is a bijection. -/

namespace Emission

variable {f : Handle ≃ Handle} {key key' : Handle → String} (hkey : ∀ h, key' (f h) = key h)

/-- The keys of the list tell its members apart. -/
def KeysDiffer (key : Handle → String) (l : List Handle) : Prop :=
  ∀ a ∈ l, ∀ b ∈ l, key a = key b → a = b

/-- A shorter list has fewer keys to tell apart. -/
theorem KeysDiffer.subset {l l' : List Handle} (h : KeysDiffer key l) (hsub : l' ⊆ l) :
    KeysDiffer key l' :=
  fun a ha b hb => h a (hsub ha) b (hsub hb)

include hkey

/-- Two nodes compare by their keys, and by their handles only if these are equal. -/
theorem le_rename {a b : Handle} (hab : key a = key b → a = b) :
    le key' (f a) (f b) = le key a b := by
  unfold le
  rw [hkey, hkey]
  by_cases h : key a = key b
  · rw [hab h, decide_eq_true (Nat.le_refl b), decide_eq_true (Nat.le_refl (f b))]
  · rw [beq_false_of_ne h, Bool.false_and, Bool.false_and]

/-- The least of a list, if no two of its keys are equal. -/
theorem least?_rename {vs : List Handle} (hvs : KeysDiffer key vs) :
    least? key' (vs.map f) = (least? key vs).map f := by
  induction vs with
  | nil => rfl
  | cons v vs ih =>
    rw [List.map_cons, least?, least?, ih (hvs.subset (List.subset_cons_self v vs))]
    cases hleast : least? key vs with
    | none => rfl
    | some w =>
      have hw := List.mem_cons_of_mem v (mem_of_least? hleast)
      simp only [Option.map_some, le_rename hkey (hvs v List.mem_cons_self w hw)]
      split
      · rfl
      · rfl

variable {needs needs' : Handle → List Handle}

/-- By induction along the list of nodes that remain: the least node that nothing is missing for
comes next, and where there is none the rest follows by key. -/
theorem place_rename (hneeds : ∀ h, needs' (f h) = (needs h).map f) {remaining : List Handle}
    (hvs : KeysDiffer key remaining) :
    place key' needs' (remaining.map f) = (place key needs remaining).map f := by
  have hready (l : List Handle) :
      (l.map f).filter (isReady needs' (l.map f)) = (l.filter (isReady needs l)).map f := by
    rw [List.filter_map]
    congr 1
    refine List.filter_congr fun v _ => ?_
    unfold isReady
    rw [Function.comp_apply, hneeds, List.all_map]
    refine congrArg (fun p => (needs v).all p) (funext fun w => ?_)
    rw [Function.comp_apply, Bool.eq_iff_iff]
    simp [f.injective.eq_iff]
  induction remaining using place_induction key needs with
  | stuck remaining h =>
    have h' : Stuck key' needs' (remaining.map f) := by
      unfold Stuck
      rw [hready, least?_rename hkey (hvs.subset List.filter_sublist.subset), h]
      rfl
    rw [place_of_stuck h, place_of_stuck h']
    refine (List.map_mergeSort fun a _ b _ => ?_).symm
    rw [hkey, hkey]
  | next remaining v h ih =>
    have h' : Next key' needs' (remaining.map f) (f v) := by
      unfold Next
      rw [hready, least?_rename hkey (hvs.subset List.filter_sublist.subset), h]
      rfl
    rw [place_of_next h, place_of_next h', List.map_cons, ← List.map_erase f.injective,
      ih (hvs.subset List.erase_subset)]

/-! ## 3. All declarations

The edges between declarations are read off the graph, and the graph is renamed. -/

omit hkey in
/-- What a declaration embeds of its own component. -/
theorem embeds_rename (edges : Assoc Handle (Assoc Handle Bool)) (members : List Handle)
    (h : Handle) :
    embeds (Components.renameEdges f edges) (members.map f) (f h) =
      (embeds edges members h).map f := by
  have hget : (Components.renameEdges f edges).get? (f h) =
      (edges.get? h).map (Assoc.rename f) := by
    unfold Components.renameEdges
    rw [Assoc.get?_rename f.injective]
    induction edges with
    | nil => rfl
    | cons e edges ih =>
      obtain ⟨b, out⟩ := e
      rw [List.map_cons, Assoc.get?, Assoc.get?]
      split
      · rfl
      · exact ih
  have hout (out : Assoc Handle Bool) :
      ((Assoc.rename f out).filter fun e => e.2 && (members.map f).contains e.1 && e.1 != f h) =
        Assoc.rename f (out.filter fun e => e.2 && members.contains e.1 && e.1 != h) := by
    unfold Assoc.rename
    rw [List.filter_map]
    refine congrArg _ (List.filter_congr fun e _ => ?_)
    rw [Function.comp_apply, Bool.eq_iff_iff]
    simp [f.injective.eq_iff]
  unfold embeds
  rw [hget]
  cases edges.get? h with
  | none => rfl
  | some out =>
    rw [Option.map_some, Option.getD_some, Option.getD_some, hout]
    simp [Assoc.rename]

omit hkey in
/-- The map of edges, node by node. -/
theorem allEdges_rename {g g' : Graph} (hr : Graph.Renames f g g') (nodes : List Handle) :
    allEdges g' (nodes.map f) = Components.renameEdges f (allEdges g nodes) := by
  unfold allEdges Components.renameEdges Assoc.rename
  rw [List.map_map, List.map_map, List.map_map]
  refine List.map_congr_left fun v _ => ?_
  simp only [Function.comp_apply, hr.declarationEdges nodes v]
  rfl

/-- **The order of declarations does not depend on handles**, if their keys tell them apart. -/
theorem order_rename {g g' : Graph} (hr : Graph.Renames f g g') {instances : List Handle}
    (hnodup : instances.Nodup) (hdiffer : KeysDiffer key instances) :
    order key' g' (instances.map f) = (order key g instances).map f := by
  have hnodes : (instances.map f).mergeSort (fun a b => key' a ≤ key' b) =
      (instances.mergeSort fun a b => key a ≤ key b).map f := by
    refine (List.map_mergeSort fun a _ b _ => ?_).symm
    rw [hkey, hkey]
  have hperm : (instances.mergeSort fun a b => key a ≤ key b).Perm instances :=
    List.mergeSort_perm _ _
  unfold order
  simp only [hnodes, allEdges_rename hr]
  generalize (instances.mergeSort fun a b => key a ≤ key b) = nodes at hperm ⊢
  rw [Components.components_rename f.injective, List.flatMap_map, List.map_flatMap]
  refine List.flatMap_congr fun c hc => ?_
  have hc : c ⊆ instances := fun v hv =>
    hperm.mem_iff.mp ((perm_components (hperm.nodup_iff.mpr hnodup)).mem_iff.mp
      (List.mem_flatten.mpr ⟨c, hc, hv⟩))
  exact place_rename hkey (embeds_rename _ c) (hdiffer.subset hc)

end Emission

end NativeTypes
