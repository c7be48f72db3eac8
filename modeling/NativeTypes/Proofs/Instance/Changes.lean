/-
NativeTypes.Proofs.Instance.Changes — an instance that is finalized stays
as it is.

An instance is changed by four calls (`Change`); a call that is refused
leaves the graph as it was, so any list of calls has an outcome
(`Graph.after`). A call does one thing to a growing aggregate, and only the
assignment of a computed attribute is refused (`perform_of_growing`). Nothing
is left half-way: an aggregate is open or closed as a whole
(`Instance.IsWhole`), and calls keep it so (`isWhole_after`). Where it is
closed, or no aggregate, every call is refused or does nothing (`Frozen`),
and this is what `isFinalized` tells (`finalized_frozen`).
-/
import NativeTypes.Proofs.Instance.Graph

namespace NativeTypes

/-! ## 1. Calls -/

/-- A call that may change an instance. -/
inductive Change
  | assign (v : Assignment)
  | addBase (b : BasePart)
  | addField (f : FieldPart)
  | finalize

namespace Change

/-- The aggregate after a call that is not refused. -/
def apply (a : Aggregate) : Change → Aggregate
  | assign v => v.apply a
  | addBase b => { a with bases := a.bases ++ [b] }
  | addField f => { a with fields := a.fields ++ [f] }
  | finalize => { a with stage := .complete }

/-- The base that is added. -/
def base? : Change → Option BasePart
  | addBase b => some b
  | _ => none

/-- The field that is added. -/
def field? : Change → Option FieldPart
  | addField f => some f
  | _ => none

/-- The call finalizes the instance. -/
def isFinalize : Change → Bool
  | finalize => true
  | _ => false

/-- The call gives an aggregate other bases or other fields. -/
def AssignsParts : Change → Prop
  | assign v => v.slot = "base_types" ∨ v.slot = "fields"
  | _ => False

/-- The parts of a kind that calls add before the first that finalizes, in order. -/
def added {α : Type} (part? : Change → Option α) (cs : List Change) : List α :=
  (cs.takeWhile fun c => !c.isFinalize).filterMap part?

theorem isFinalize_iff {c : Change} : c.isFinalize = true ↔ c = finalize := by
  cases c <;> simp [isFinalize]

/-- A call that finalizes completes an aggregate, any other leaves its stage. -/
theorem stage_apply (a : Aggregate) (c : Change) :
    (c.apply a).stage = if c.isFinalize then .complete else a.stage := by
  cases c with
  | assign v => cases v <;> rfl
  | addBase | addField | finalize => rfl

theorem isFinalized_apply {a : Aggregate} (ha : a.isFinalized = false) (c : Change) :
    (c.apply a).isFinalized = c.isFinalize := by
  have hstage : a.stage = .growing := by simpa [Aggregate.isFinalized] using ha
  cases hc : c.isFinalize <;> simp [Aggregate.isFinalized, stage_apply, hc, hstage]

theorem added_cons {α : Type} (part? : Change → Option α) (c : Change) (cs : List Change) :
    added part? (c :: cs) = if c.isFinalize then [] else (part? c).toList ++ added part? cs := by
  cases hc : c.isFinalize <;> cases hpart : part? c <;> simp [added, hc, hpart]

theorem bases_apply {c : Change} (hc : ¬ c.AssignsParts) (a : Aggregate) :
    (c.apply a).bases = a.bases ++ c.base?.toList := by
  cases c with
  | assign v =>
    cases v <;> simp_all [AssignsParts, Assignment.slot, apply, Assignment.apply, base?]
  | addBase | addField | finalize => simp [apply, base?]

theorem fields_apply {c : Change} (hc : ¬ c.AssignsParts) (a : Aggregate) :
    (c.apply a).fields = a.fields ++ c.field?.toList := by
  cases c with
  | assign v =>
    cases v <;> simp_all [AssignsParts, Assignment.slot, apply, Assignment.apply, field?]
  | addBase | addField | finalize => simp [apply, field?]

end Change

/-- An aggregate is open for changes or closed, not with its attributes fixed and its parts
open. It is so when it is made, and calls keep it so (`Graph.isWhole_after`). -/
def Instance.IsWhole (i : Instance) : Prop := ∀ a, i = .aggregate a → a.stage ≠ .fixed

namespace Graph

/-- A call on an instance. -/
def perform (g : Graph) (h : Handle) : Change → Except ChangeFault Graph
  | .assign v => g.assign h v
  | .addBase b => g.addBase h b
  | .addField f => g.addField h f
  | .finalize => .ok (g.finalize h)

/-- The graph after a call. -/
def next (g : Graph) (h : Handle) (c : Change) : Graph :=
  match g.perform h c with
  | .ok g' => g'
  | .error _ => g

/-- The graph after calls on an instance, one after another. -/
def after (g : Graph) (h : Handle) (cs : List Change) : Graph :=
  cs.foldl (fun g c => g.next h c) g

/-! ## 2. Calls on a growing aggregate -/

variable {g : Graph} {h : Handle} {a : Aggregate}

theorem exists_growing (hf : (g.get h).isFinalized = false) :
    ∃ a, g.get h = .aggregate a ∧ a.isFinalized = false := by
  cases ha : g.get h with
  | aggregate a => exact ⟨a, rfl, by rwa [ha] at hf⟩
  | primitive | pointer | array | enumeration | function | undefined =>
    rw [ha] at hf
    cases hf

/-- A call on a growing aggregate does what it is for, but what is computed is not assigned. -/
theorem perform_of_growing (ha : g.get h = .aggregate a) (hf : a.isFinalized = false)
    (c : Change) :
    (∃ v, c = .assign v ∧ v.slot ∈ a.computedSlots ∧ g.perform h c = .error .unchangeable) ∨
      g.perform h c = .ok (g.set h (.aggregate (c.apply a))) := by
  have hopen : a.stage ≠ .complete := by
    intro hstage
    simp [Aggregate.isFinalized, hstage] at hf
  cases c with
  | assign v =>
    have hfinal : (g.get h).isFinalized = false := by rw [ha]; exact hf
    by_cases hslot : v.slot ∈ a.computedSlots
    · have hcomputes : (g.get h).computes v.slot = true := by simpa [ha, Instance.computes]
      exact .inl ⟨v, rfl, hslot, by simp [perform, assign, hfinal, hcomputes]⟩
    · have hcomputes : (g.get h).computes v.slot = false := by simpa [ha, Instance.computes]
      refine .inr ?_
      simp only [perform, assign, hfinal, hcomputes, Bool.false_eq_true, if_false]
      exact change_of_aggregate ha hopen v.apply
  | addBase b => exact .inr (change_of_aggregate ha hopen _)
  | addField f => exact .inr (change_of_aggregate ha hopen _)
  | finalize => exact .inr (congrArg _ (finalize_of_growing ha hf))

/-- After a call the aggregate is as before, if an assignment was refused, or as the call leaves
it. -/
theorem get_next_of_growing (ha : g.get h = .aggregate a) (hf : a.isFinalized = false)
    (c : Change) :
    (∃ v, c = .assign v ∧ (g.next h c).get h = .aggregate a) ∨
      (g.next h c).get h = .aggregate (c.apply a) := by
  rcases perform_of_growing ha hf c with ⟨v, hc, -, hrefused⟩ | hdone
  · exact .inl ⟨v, hc, by simp [next, hrefused, ha]⟩
  · exact .inr (by simp [next, hdone, get_set (lt_count_of_aggregate ha)])

/-! ## 3. Calls on a finalized instance -/

/-- No call changes the instance: what is assigned or added is refused, and finalizing it does
nothing. -/
structure Frozen (g : Graph) (h : Handle) : Prop where
  assign (v : Assignment) : g.perform h (.assign v) = .error (.frozen v.slot (g.get h).label)
  addBase (b : BasePart) : g.perform h (.addBase b) = .error .unchangeable
  addField (f : FieldPart) : g.perform h (.addField f) = .error .unchangeable
  finalize : g.perform h .finalize = .ok g

theorem Frozen.next_eq (hfrozen : g.Frozen h) (c : Change) : g.next h c = g := by
  unfold next
  cases c with
  | assign v => rw [hfrozen.assign]
  | addBase b => rw [hfrozen.addBase]
  | addField f => rw [hfrozen.addField]
  | finalize => rw [hfrozen.finalize]

theorem Frozen.after_eq (hfrozen : g.Frozen h) (cs : List Change) : g.after h cs = g := by
  induction cs with
  | nil => rfl
  | cons c cs ih =>
    rw [after, List.foldl_cons, hfrozen.next_eq]
    exact ih

theorem frozen_of_isFinalized (hwhole : (g.get h).IsWhole)
    (hf : (g.get h).isFinalized = true) : g.Frozen h := by
  have hchange (f : Aggregate → Aggregate) : g.change h f = .error .unchangeable := by
    unfold change
    split
    · rename_i a ha
      have hgrowing : a.stage ≠ .growing := by
        simpa [ha, Instance.isFinalized, Aggregate.isFinalized] using hf
      have hcomplete : a.stage = .complete := by
        cases hstage : a.stage with
        | growing => exact absurd hstage hgrowing
        | fixed => exact absurd hstage (hwhole a ha)
        | complete => rfl
      rw [if_pos hcomplete]
    · rfl
  have hfinalize : g.finalize h = g := by
    unfold Graph.finalize
    split
    · rename_i a ha
      rw [ha] at hf
      exact if_pos hf
    · rfl
  exact {
    assign := fun v => by simp [perform, Graph.assign, hf]
    addBase := fun b => hchange _
    addField := fun f => hchange _
    finalize := congrArg _ hfinalize }

/-! ## 4. Calls one after another -/

theorem isWhole_next (hwhole : (g.get h).IsWhole) (c : Change) : ((g.next h c).get h).IsWhole := by
  cases hf : (g.get h).isFinalized with
  | true => rwa [(frozen_of_isFinalized hwhole hf).next_eq]
  | false =>
    obtain ⟨a, ha, hgrowing⟩ := exists_growing hf
    rcases get_next_of_growing ha hgrowing c with ⟨v, -, hsame⟩ | hdone
    · rwa [hsame, ← ha]
    · rintro a' ha'
      obtain rfl : c.apply a = a' := Instance.aggregate.inj (hdone.symm.trans ha')
      have hstage := hwhole a ha
      rw [Change.stage_apply]
      split
      · nofun
      · exact hstage

theorem isWhole_after (hwhole : (g.get h).IsWhole) (cs : List Change) :
    ((g.after h cs).get h).IsWhole := by
  induction cs generalizing g with
  | nil => exact hwhole
  | cons c cs ih => exact ih (isWhole_next hwhole c)

/-- A call that does not assign its parts gives a growing aggregate what it adds. -/
theorem parts_next_of_growing (ha : g.get h = .aggregate a) (hf : a.isFinalized = false)
    {c : Change} (hc : ¬ c.AssignsParts) :
    ∃ a', (g.next h c).get h = .aggregate a' ∧ a'.isFinalized = c.isFinalize ∧
      a'.bases = a.bases ++ c.base?.toList ∧ a'.fields = a.fields ++ c.field?.toList := by
  rcases get_next_of_growing ha hf c with ⟨v, rfl, hsame⟩ | hdone
  · exact ⟨a, hsame, hf, by simp [Change.base?], by simp [Change.field?]⟩
  · exact ⟨c.apply a, hdone, Change.isFinalized_apply hf c, Change.bases_apply hc a,
      Change.fields_apply hc a⟩

/-- Calls that do not assign its parts give a growing aggregate what they add, until one
finalizes it. -/
theorem parts_after_of_growing (ha : g.get h = .aggregate a) (hf : a.isFinalized = false)
    (hwhole : (g.get h).IsWhole) {cs : List Change} (hcs : ∀ c ∈ cs, ¬ c.AssignsParts) :
    ∃ a', (g.after h cs).get h = .aggregate a' ∧
      (a'.isFinalized = true ↔ Change.finalize ∈ cs) ∧
      a'.bases = a.bases ++ Change.added Change.base? cs ∧
      a'.fields = a.fields ++ Change.added Change.field? cs := by
  induction cs generalizing g a with
  | nil => exact ⟨a, ha, by simp [hf], by simp [Change.added], by simp [Change.added]⟩
  | cons c cs ih =>
    obtain ⟨a₁, ha₁, hf₁, hbases₁, hfields₁⟩ := parts_next_of_growing ha hf (hcs c (by simp))
    have hwhole₁ := isWhole_next hwhole c
    rw [Change.added_cons, Change.added_cons]
    cases hc : c.isFinalize with
    | true =>
      -- Nothing happens after this call, which adds nothing itself.
      have hfrozen : (g.next h c).Frozen h :=
        frozen_of_isFinalized hwhole₁ (by rw [ha₁, ← hc, ← hf₁]; rfl)
      have hafter : (g.after h (c :: cs)).get h = .aggregate a₁ :=
        (congrArg (get · h) (hfrozen.after_eq cs)).trans ha₁
      obtain rfl := Change.isFinalize_iff.mp hc
      exact ⟨a₁, hafter, by simp [hf₁, hc], hbases₁, hfields₁⟩
    | false =>
      obtain ⟨a', ha', hf', hbases', hfields'⟩ :=
        ih ha₁ (hf₁.trans hc) hwhole₁ fun c' hc' => hcs c' (List.mem_cons_of_mem c hc')
      have hne : .finalize ≠ c := fun he => by simp [← he, Change.isFinalize] at hc
      exact ⟨a', ha', by simp [hf', hne], by simp [hbases', hbases₁], by simp [hfields', hfields₁]⟩

/-- Calls on an instance leave it as it is from the moment that it is finalized: all further
ones are refused or do nothing, and together they change nothing. An instance that is no
aggregate is finalized when it is made; an aggregate whose bases and fields are not assigned is
so after the first call that finalizes it, with the parts that were added until then. -/
theorem finalized_frozen (hwhole : (g.get h).IsWhole) (cs : List Change) :
    (((g.after h cs).get h).isFinalized = true →
      (g.after h cs).Frozen h ∧ ∀ later, g.after h (cs ++ later) = g.after h cs) ∧
      ((∀ a, g.get h ≠ .aggregate a) → (g.get h).isFinalized = true) ∧
      ∀ a, g.get h = .aggregate a → a.isFinalized = false → (∀ c ∈ cs, ¬ c.AssignsParts) →
        ∃ a', (g.after h cs).get h = .aggregate a' ∧
          (a'.isFinalized = true ↔ Change.finalize ∈ cs) ∧
          a'.bases = a.bases ++ Change.added Change.base? cs ∧
          a'.fields = a.fields ++ Change.added Change.field? cs := by
  refine ⟨fun hf => ?_, fun hnone => ?_, fun a ha hf hcs => ?_⟩
  · have hfrozen := frozen_of_isFinalized (isWhole_after hwhole cs) hf
    refine ⟨hfrozen, fun later => ?_⟩
    rw [after, List.foldl_append]
    exact hfrozen.after_eq later
  · cases hf : (g.get h).isFinalized with
    | true => rfl
    | false =>
      obtain ⟨a, ha, -⟩ := exists_growing hf
      exact absurd ha (hnone a)
  · exact parts_after_of_growing ha hf hwhole hcs

theorem finalized_frozen_small :
    let g : Graph := ⟨#[.primitive .bool, .aggregate { name := "S" }]⟩
    let x : FieldPart := { name := "x", type := 0, offset := 0 }
    let cs := [.addField x, .assign (.size (some 1)), .finalize, .addField x]
    (g.get 1).IsWhole ∧ (g.after 1 cs).Frozen 1 ∧
      ∃ a, (g.after 1 cs).get 1 = .aggregate a ∧ a.bases = [] ∧ a.fields = [x] := by
  intro g x cs
  have hwhole : (g.get 1).IsWhole := fun a ha => by
    obtain rfl := Instance.aggregate.inj ha
    decide
  obtain ⟨hfrozen, -, hparts⟩ := finalized_frozen hwhole cs
  have hcs : ∀ c ∈ cs, ¬ c.AssignsParts := by simp [cs, Change.AssignsParts, Assignment.slot]
  obtain ⟨a, ha, -, hbases, hfields⟩ := hparts _ rfl rfl hcs
  exact ⟨hwhole, (hfrozen (by decide)).1, a, ha, hbases, hfields⟩

end Graph

end NativeTypes
