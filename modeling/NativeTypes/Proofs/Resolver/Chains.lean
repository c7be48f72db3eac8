/-
NativeTypes.Proofs.Resolver.Chains — where chains of references end, declaring
comes to an end.

A reference asks for others, these ask for more, and a typedef that is open
asks for nothing. `Ends` says that this stops somewhere, as a derivation and
not as a number. The number is read off the derivation: a reference asks for
finitely many others, so how deeply references are followed, and how many
aggregates are put on the worklist, is bounded (`Ends.within`). With that much
room a reference is declared, unless a stop is excused.

A derivation is used because it can be given for a concrete module without
counting, and because a bound for the whole module is not needed: each
reference has its own. The references of a description may be infinitely many,
as every text is one. One number serves for two bounds at the price of being
larger than either must be; with two numbers every lemma would carry both.

Where enough references may be followed, running out of them is no reason to
stop. What remains are stops that no amount of room prevents, and `Pardoned`
lists them with the state in which they happen.
-/
import NativeTypes.Proofs.Resolver.Remembered

namespace NativeTypes.Resolver

variable {σ : Type} {α : Type} {task : Task σ} {describe : Description} {valid : σ → Prop}
  {s s' t : State σ} {opens : List String} {ref : Ref} {e : Stop}

/-- The chains of references that start here end, while these typedefs are open. -/
inductive Ends (describe : Description) : List String → Ref → Prop
  | intro {opens : List String} {ref : Ref} :
      (∀ c ∈ calls describe ref, (∀ label, c.opens = some label → label ∉ opens) →
        Ends describe (c.opens.toList ++ opens) c.ref) → Ends describe opens ref

/-- The stop is excused: while something that one of the roots asks for was declared, at a valid
state of the source, or because a number in a message about a layout is too long. -/
inductive Pardoned (task : Task σ) (describe : Description) (valid : σ → Prop) (roots : List Ref) :
    Stop → State σ → Prop
  | declaring {root ref : Ref} {session : σ} {e : Stop} {s : State σ} : root ∈ roots →
      Relation.ReflTransGen (AsksFor describe) root ref → valid session →
      Excused task describe ref session s e → Pardoned task describe valid roots e s
  | layout {h : Handle} {a : Aggregate} {fault : LayoutFault} {s : State σ} :
      s.graph.get h = .aggregate a → s.graph.layoutFault? a = some fault →
      fault.isWritable = false → Pardoned task describe valid roots .tooManyDigits s

namespace Pardoned

variable {roots roots' : List Ref}

theorem of_eq (h : Pardoned task describe valid roots e s) (hregistry : s'.registry = s.registry)
    (hgraph : s'.graph = s.graph) : Pardoned task describe valid roots e s' := by
  cases h with
  | layout ha hfault hlong => exact .layout (hgraph ▸ ha) (hgraph ▸ hfault) hlong
  | declaring hroot hasks hvalid he =>
    refine .declaring hroot hasks hvalid ?_
    cases he with
    | lost hlost => exact .lost hlost
    | unsized hsize => exact .unsized hsize
    | cancelled hstop => exact .cancelled hstop
    | unwritable hlong => exact .unwritable hlong
    | taken hshape hkind hget => exact hgraph ▸ .taken hshape hkind (hregistry ▸ hget)

/-- More roots, more excuses. -/
theorem mono (h : Pardoned task describe valid roots e s) (hroots : roots ⊆ roots') :
    Pardoned task describe valid roots' e s := by
  cases h with
  | layout ha hfault hlong => exact .layout ha hfault hlong
  | declaring hroot hasks hvalid he => exact .declaring (hroots hroot) hasks hvalid he

/-- What is asked for can be asked for by the one that asked for it. -/
theorem head {ref next : Ref} (h : Pardoned task describe valid [next] e s)
    (hasks : AsksFor describe ref next) : Pardoned task describe valid [ref] e s := by
  cases h with
  | layout ha hfault hlong => exact .layout ha hfault hlong
  | declaring hroot hrest hvalid he =>
    obtain rfl := List.mem_singleton.mp hroot
    exact .declaring (List.mem_singleton_self ref) (hrest.head hasks) hvalid he

theorem isCycle (h : Pardoned task describe valid roots e s) : e.isCycle = false := by
  cases h with
  | layout => rfl
  | declaring _ _ _ he =>
    cases he with
    | @lost fault => cases fault <;> rfl
    | @unsized fault => cases fault <;> rfl
    | _ => rfl

end Pardoned

/-- With `n` references that may be followed below each other the reference is declared, and at
most `n` aggregates are put on the worklist. -/
def DeclaresWithin (task : Task σ) (describe : Description) (valid : σ → Prop) (n : Nat)
    (opens : List String) (ref : Ref) : Prop :=
  ∀ m, n ≤ m → ∀ s, WellFormed s → Truthful describe valid s → s.openAliases = opens →
    Ensures (declare task m ref) s
      (fun _ s' => s'.placeholders.length ≤ s.placeholders.length + n)
      (Pardoned task describe valid [ref])

/-- More room does no harm. -/
theorem DeclaresWithin.mono {n n' : Nat} (h : DeclaresWithin task describe valid n opens ref)
    (hle : n ≤ n') : DeclaresWithin task describe valid n' opens ref := by
  intro m hm s hw ht hopen
  refine Ensures.mono (h m (hle.trans hm) s hw ht hopen) (fun _ s' hlength => ?_) fun _ _ he => he
  omega

/-- What each of finitely many things has for a large number they all have for one. -/
theorem exists_forall_of_mono {P : Nat → α → Prop} (hmono : ∀ m n a, m ≤ n → P m a → P n a)
    (l : List α) (h : ∀ a ∈ l, ∃ n, P n a) : ∃ n, ∀ a ∈ l, P n a := by
  induction l with
  | nil => exact ⟨0, fun _ ha => by cases ha⟩
  | cons a l ih =>
    obtain ⟨n, hn⟩ := h a List.mem_cons_self
    obtain ⟨m, hm⟩ := ih fun b hb => h b (List.mem_cons_of_mem a hb)
    refine ⟨max n m, fun b hb => ?_⟩
    rcases List.mem_cons.mp hb with rfl | hb
    · exact hmono _ _ _ (Nat.le_max_left n m) hn
    · exact hmono _ _ _ (Nat.le_max_right n m) (hm b hb)

/-- A quiet edit puts nothing on the worklist. -/
theorem Quiet.placeholders (h : Quiet task s s') : s'.placeholders = s.placeholders := by
  induction h with
  | refl => rfl
  | tail _ hlast ih =>
    cases hlast with
    | polled | lost | answered => exact ih
    | noted hbooks | bound hbooks =>
      simp only [books, Prod.mk.injEq] at hbooks
      exact hbooks.2.2.2.2.2.1.trans ih

section

variable {n m : Nat} (hm : n ≤ m) (hd : Describes task describe valid)
include hm hd

/-- A call opens a typedef around a declaration. -/
theorem within_call {c : Call}
    (hc : DeclaresWithin task describe valid n (c.opens.toList ++ s.openAliases) c.ref)
    (hw : WellFormed s) (ht : Truthful describe valid s) :
    Ensures (c.run (declare task m)) s
      (fun _ s' => s'.placeholders.length ≤ s.placeholders.length + n ∧
        s'.openAliases = s.openAliases ∧ Truthful describe valid s')
      (Pardoned task describe valid [c.ref]) := by
  have hkeeps := (asking_truthful hd).keeps hd m c.ref (c.enter s) (hw.enter c) ht
  have hsteps := declares_declare task m (c.enter s) c.ref (hw.enter c)
  refine ensures_call (Ensures.mono ((hc m hm (c.enter s) (hw.enter c) ht rfl).and
    (hkeeps.and hsteps)) ?_ ?_)
  · rintro _ t ⟨hlength, htruth, -, hg, -⟩
    refine ⟨hlength, ?_, htruth⟩
    have hopen : t.openAliases = c.opens.toList ++ s.openAliases := hg.openAliases
    show c.opens.elim t.openAliases t.openAliases.erase = s.openAliases
    cases hopens : c.opens with
    | none => rw [Option.elim_none, hopen, hopens, Option.toList_none, List.nil_append]
    | some label =>
      rw [Option.elim_some, hopen, hopens, Option.toList_some, List.singleton_append,
        List.erase_cons_head]
  · rintro e t ⟨hpardoned, -⟩
    exact hpardoned.of_eq rfl rfl

/-- A trace puts at most `n` aggregates on the worklist for each of its calls. -/
theorem within_trace {cs : List Call} (htrace : Trace task (declare task m) cs s s')
    (hcs : ∀ c ∈ cs, DeclaresWithin task describe valid n (c.opens.toList ++ s.openAliases) c.ref)
    (ht : Truthful describe valid s) :
    s'.placeholders.length ≤ s.placeholders.length + cs.length * n := by
  induction htrace with
  | done hq => simp [hq.placeholders]
  | @call s t u s' c rest h hq hw hrun _ ih =>
    have hopen := hq.frame.2.1
    obtain ⟨hlength, hopen', htruth⟩ := (within_call hm hd (hopen ▸ hcs c List.mem_cons_self) hw
      ((asking_truthful hd).quiet hq ht)).of_ok hrun
    have hrest := ih (fun x hx => by
      rw [hopen', hopen]
      exact hcs x (List.mem_cons_of_mem c hx)) htruth
    rw [hq.placeholders] at hlength
    rw [List.length_cons, Nat.succ_mul]
    omega

/-- What stops a call of the reference is excused for the reference. -/
theorem pardoned_of_broken {cs : List Call}
    (hbroken : Broken task describe ref (declare task m) cs s e s')
    (hcs : ∀ c ∈ cs, c ∈ calls describe ref ∧
      DeclaresWithin task describe valid n (c.opens.toList ++ s.openAliases) c.ref)
    (ht : Truthful describe valid s) : Pardoned task describe valid [ref] e s' := by
  induction hbroken with
  | here hq _ he =>
    exact .declaring (List.mem_singleton_self ref) .refl ((asking_truthful hd).quiet hq ht).1 he
  | @call _ _ _ c _ _ hq hw hrun =>
    obtain ⟨hc, hwithin⟩ := hcs c List.mem_cons_self
    exact ((within_call hm hd (hq.frame.2.1 ▸ hwithin) hw
      ((asking_truthful hd).quiet hq ht)).of_error hrun).head ⟨c, hc, rfl⟩
  | @later _ _ _ _ c _ _ _ hq hw hrun _ ih =>
    have hopen := hq.frame.2.1
    obtain ⟨-, hopen', htruth⟩ := (within_call hm hd (hopen ▸ (hcs c List.mem_cons_self).2) hw
      ((asking_truthful hd).quiet hq ht)).of_ok hrun
    refine ih (fun x hx => ?_) htruth
    rw [hopen', hopen]
    exact hcs x (List.mem_cons_of_mem _ hx)

end

/-- A reference needs one level more than what it asks for. -/
theorem declaresWithin_of_calls (hd : Describes task describe valid) {n : Nat}
    (hcs : ∀ c ∈ calls describe ref, (∀ label, c.opens = some label → label ∉ opens) →
      DeclaresWithin task describe valid n (c.opens.toList ++ opens) c.ref) :
    DeclaresWithin task describe valid ((calls describe ref).length * n + n + 1) opens ref := by
  intro k hk s hw ht hopen
  obtain ⟨m, rfl⟩ : ∃ m, k = m + 1 := ⟨k - 1, by omega⟩
  have hm : n ≤ m := by omega
  unfold declare declareOnce Ensures
  cases hget : s.declared.get? ref with
  | some h =>
    simp only [run_get_bind, hget]
    exact Nat.le_add_right _ _
  | none =>
    simp only [run_get_bind, hget]
    obtain ⟨cs, hmade⟩ := exists_made describe s ref
    have hplaces := places_declareNew (declares_declare task m) hd ht hw hmade
    -- a typedef that makes its call is not open
    have hmade' : cs.length ≤ (calls describe ref).length ∧ ∀ c ∈ cs, c ∈ calls describe ref ∧
        DeclaresWithin task describe valid n (c.opens.toList ++ s.openAliases) c.ref := by
      cases hmade with
      | all hclosed =>
        refine ⟨Nat.le_refl _, fun c hc => ⟨hc, hopen ▸ hcs c hc fun label hlabel => ?_⟩⟩
        obtain ⟨shape, hshows, hkind, rfl⟩ := shows_of_opens hc hlabel
        exact hopen ▸ hclosed shape hshows hkind
      | opened | known => exact ⟨Nat.zero_le _, fun c hc => by cases hc⟩
    cases hr : declareNew task (declare task m) ref s with
    | error e t =>
      rw [run_bind_error hr]
      exact pardoned_of_broken hm hd (hplaces.of_error hr) hmade'.2 ht
    | ok h t =>
      rw [run_bind_ok hr]
      obtain ⟨u, htrace, hend⟩ := hplaces.of_ok hr
      have hlength := within_trace hm hd htrace (fun c hc => (hmade'.2 c hc).2) ht
      have hmul := Nat.mul_le_mul_right n hmade'.1
      have hlast : t.placeholders.length ≤ u.placeholders.length + 1 := by
        rcases hend with rfl | hwaits
        · exact Nat.le_succ _
        · obtain ⟨x, hx⟩ := hwaits.placeholders
          simp [hx]
      show t.placeholders.length ≤ _
      omega

/-- **Where chains of references end, declaring does**, unless a stop is excused. -/
theorem Ends.within (hd : Describes task describe valid) (h : Ends describe opens ref) :
    ∃ n, DeclaresWithin task describe valid n opens ref := by
  induction h with
  | @intro opens ref _ ih =>
    obtain ⟨n, hn⟩ := exists_forall_of_mono
      (P := fun n (c : Call) => (∀ label, c.opens = some label → label ∉ opens) →
        DeclaresWithin task describe valid n (c.opens.toList ++ opens) c.ref)
      (fun _ _ _ hle h hclosed => (h hclosed).mono hle) (calls describe ref) fun c hc => by
        by_cases hclosed : ∀ label, c.opens = some label → label ∉ opens
        · obtain ⟨n, hn⟩ := ih c hc hclosed
          exact ⟨n, fun _ => hn⟩
        · exact ⟨0, fun h => absurd h hclosed⟩
    exact ⟨_, declaresWithin_of_calls hd hn⟩

end NativeTypes.Resolver
