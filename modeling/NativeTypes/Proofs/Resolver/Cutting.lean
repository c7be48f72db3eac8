/-
NativeTypes.Proofs.Resolver.Cutting — where types that embed each other are
cut is a matter of the types alone.

A traversal takes the parts of a type one after the other. What a part
embeds comes first; a type that is met inside itself is cut at the part that
led there, and so are all types on the way. `Cutting` says of the outcome
what any traversal makes true of it, whatever it started from: parts that
were taken embed what was done earlier, and types that are cut form rings
that were done together. Two outcomes of this kind agree on every type that
both know (`Cutting.taken_eq`): where a type is cut earlier in one of them,
the ring that cuts it would have been taken up to it in the other.

A traversal that goes on to what a part merely mentions knows the same types
as any other one (`Cutting.known_of_known`).
-/
import Mathlib.Logic.Relation

namespace NativeTypes.Resolver

variable {V : Type}

/-- What is static about the types: what a part of one embeds or mentions, how many parts there
are, and which types are asked for. -/
structure PartTable (V : Type) where
  embeds : V → Nat → V → Prop
  mentions : V → Nat → V → Prop
  size : V → Nat
  asked : V → Prop

/-- How a traversal ends: the types it knows, how many parts each took, when it was done with
each and when it first met each. -/
structure Outcome (V : Type) where
  known : V → Prop
  taken : V → Nat
  rank : V → Nat
  age : V → Nat

namespace Outcome

variable (T : PartTable V) (o : Outcome V)

/-- The type was cut before it took all its parts. -/
def IsCut (v : V) : Prop := o.known v ∧ o.taken v < T.size v

/-- The type was cut at a part that embeds the other one. -/
def CutsAt (v w : V) : Prop := o.IsCut T v ∧ T.embeds v (o.taken v) w

end Outcome

/-- What is true of the outcome of every traversal. -/
structure Cutting (T : PartTable V) (o : Outcome V) : Prop where
  le_size : ∀ v, o.known v → o.taken v ≤ T.size v
  taken : ∀ v i w, o.known v → i < o.taken v → T.embeds v i w → o.known w ∧ o.rank w < o.rank v
  ring : ∀ v, o.IsCut T v → Relation.TransGen (o.CutsAt T) v v
  together : ∀ v w, o.CutsAt T v w → o.known w ∧ o.rank w ≤ o.rank v
  asked : ∀ v, T.asked v → o.known v
  mentioned : ∀ v i w, o.known v → i ≤ o.taken v → T.mentions v i w → o.known w
  met : ∀ v, o.known v → T.asked v ∨
    ∃ u i, o.age u < o.age v ∧ o.known u ∧ i ≤ o.taken u ∧ T.mentions u i v

namespace Cutting

variable {T : PartTable V} {o o' : Outcome V}

/-- If the outcomes agree on what both have done before `v`, neither cuts `v` earlier. -/
theorem not_lt (h : Cutting T o) (h' : Cutting T o') {v : V}
    (ih : ∀ u, o.known u → o'.known u → o.rank u + o'.rank u < o.rank v + o'.rank v →
      o.taken u = o'.taken u)
    (hv : o.known v) (hv' : o'.known v) : ¬o.taken v < o'.taken v := by
  intro hlt
  have hcut : o.IsCut T v := ⟨hv, Nat.lt_of_lt_of_le hlt (h'.le_size v hv')⟩
  obtain ⟨w, hw, hback⟩ := Relation.TransGen.head'_iff.mp (h.ring v hcut)
  obtain ⟨-, hrank'⟩ := h'.taken v (o.taken v) w hv' hlt hw.2
  -- from `w` back to `v` both outcomes cut every type at the same part
  have hring : ∀ z, Relation.ReflTransGen (o.CutsAt T) w z →
      o.known z ∧ o'.known z ∧ o.rank z ≤ o.rank v ∧ o'.rank z < o'.rank v := by
    intro z hz
    induction hz with
    | refl =>
      obtain ⟨hknown, hrank⟩ := h.together v w hw
      exact ⟨hknown, (h'.taken v (o.taken v) w hv' hlt hw.2).1, hrank, hrank'⟩
    | @tail y z _ hyz ih' =>
      obtain ⟨hy, hy', hyrank, hyrank'⟩ := ih'
      have heq := ih y hy hy' (Nat.add_lt_add_of_le_of_lt hyrank hyrank')
      have hyz' : o'.CutsAt T y z :=
        ⟨⟨hy', heq ▸ hyz.1.2⟩, heq ▸ hyz.2⟩
      obtain ⟨hz, hzrank⟩ := h.together y z hyz
      obtain ⟨hz', hzrank'⟩ := h'.together y z hyz'
      exact ⟨hz, hz', Nat.le_trans hzrank hyrank, Nat.lt_of_le_of_lt hzrank' hyrank'⟩
  exact Nat.lt_irrefl _ (hring v hback).2.2.2

/-- **Every type takes the same parts in any two outcomes that know it.** -/
theorem taken_eq (h : Cutting T o) (h' : Cutting T o') {v : V} (hv : o.known v)
    (hv' : o'.known v) : o.taken v = o'.taken v := by
  induction hn : o.rank v + o'.rank v using Nat.strongRecOn generalizing v with
  | ind n ih =>
    subst hn
    have hbelow : ∀ u, o.known u → o'.known u →
        o.rank u + o'.rank u < o.rank v + o'.rank v → o.taken u = o'.taken u :=
      fun u hu hu' hlt => ih _ hlt hu hu' rfl
    refine Nat.le_antisymm (Nat.le_of_not_lt ?_) (Nat.le_of_not_lt ?_)
    · exact h'.not_lt h (fun u hu' hu hlt =>
        (hbelow u hu hu' (by rwa [Nat.add_comm, Nat.add_comm (o.rank v)])).symm) hv' hv
    · exact h.not_lt h' hbelow hv hv'

/-- **What one outcome knows every other one knows.** -/
theorem known_of_known (h : Cutting T o) (h' : Cutting T o') {v : V} (hv : o.known v) :
    o'.known v := by
  induction hn : o.age v using Nat.strongRecOn generalizing v with
  | ind n ih =>
    subst hn
    rcases h.met v hv with hasked | ⟨u, i, hage, hu, hi, hmentions⟩
    · exact h'.asked v hasked
    · have hu' := ih _ hage hu rfl
      exact h'.mentioned u i v hu' (h.taken_eq h' hu hu' ▸ hi) hmentions

end Cutting

end NativeTypes.Resolver
