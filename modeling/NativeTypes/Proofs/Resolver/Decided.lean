/-
NativeTypes.Proofs.Resolver.Decided — the check of the layout decides the rule
for layouts.

`layouts_decided` — after any requests exactly the misfits are invalid for
their layout, and wherever an aggregate took its parts it ends with that
verdict. The one exception is a fault whose words hold a number with too many
digits: `exists_undecided` is a request that stops there.
-/
import NativeTypes.Proofs.Resolver.Judged

namespace NativeTypes.Resolver

variable {σ : Type} {α : Type} {s s' s'' t : State σ} {module : String} {own : List Handle}
  {lost : Handle → Prop} {h : Handle} {a : Aggregate}

/-! ## 1. The end of a definition -/

/-- The aggregate takes parts, is not marked and has a key. -/
structure Unjudged (s : State σ) (h : Handle) (a : Aggregate) : Prop where
  get : s.graph.get h = .aggregate a
  growing : a.stage = .growing
  unmarked : s.registry.invalid.get? h = none
  keyed : (s.registry.keyOf? h).isSome = true

/-- From `s` to `s'` the aggregate ended: with a mark and a report if its parts do not fit, and
with neither if they do. No other mark is new. -/
structure Decided (module : String) (s s' : State σ) (h : Handle) (a : Aggregate) : Prop where
  complete : s'.graph.get h = .aggregate { a with stage := .complete }
  others : ∀ x, x ≠ h → s'.registry.invalid.get? x = s.registry.invalid.get? x
  writable : ∀ fault, s.graph.layoutFault? a = some fault → fault.isWritable = true
  verdict : (¬Misfit s.graph a ∧ s'.registry.isInvalid h = false ∧
      s'.diagnostics = s.diagnostics) ∨
    (Misfit s.graph a ∧ s'.registry.isInvalid h = true ∧
      s'.diagnostics = s.diagnostics ++ [layoutReport module s' h])

section

variable {declare : Ref → Run σ Handle} {define : Handle → Run σ Unit} {shape : Shape}

/-- What follows when the parts are taken. -/
theorem defineCaught_of_taken (task : Task σ)
    (hparts : (do defineBases declare define h shape.bases
                  defineFields declare define h shape.fields : Run σ Unit) s = .ok () t) :
    defineCaught task declare define h shape s =
      (checkLayout task h >>= fun _ => finalize h) t := by
  have hbody : defineBody task declare define h shape s = checkLayout task h t := by
    have hsplit : defineBody task declare define h shape =
        (do defineBases declare define h shape.bases
            defineFields declare define h shape.fields) >>= fun _ => checkLayout task h := by
      simp only [defineBody, bind_assoc]
    rw [hsplit, run_bind_ok hparts]
  unfold defineCaught
  rw [hbody]
  cases hcheck : checkLayout task h t with
  | ok _ u => rw [run_bind_ok hcheck]
  | error e u =>
    have he := isCycle_of_checkLayout hcheck
    rw [run_bind_error hcheck]
    cases e with
    | valueCycle path => cases he
    | _ => rfl

/-- **The check decides**: an aggregate that took its parts ends as the rule says, unless the words
for what does not fit cannot be written. -/
theorem decides_defineCaught (task : Task σ)
    (hparts : (do defineBases declare define h shape.bases
                  defineFields declare define h shape.fields : Run σ Unit) s = .ok () t)
    (ht : Unjudged t h a) :
    Ensures (defineCaught task declare define h shape) s
      (fun _ s' => Decided task.module t s' h a)
      fun e s' => s' = t ∧ e = .tooManyDigits ∧
        ∃ fault, t.graph.layoutFault? a = some fault ∧ fault.isWritable = false := by
  obtain ⟨key, hkey⟩ := Option.isSome_iff_exists.mp ht.keyed
  have hget (x : Handle) := Graph.get_finalize ht.get
    (by simp [Aggregate.isFinalized, ht.growing]) x
  unfold Ensures
  rw [defineCaught_of_taken task hparts]
  have hcheck := checkLayout_eq task h t
  rw [ht.get, hkey] at hcheck
  simp only at hcheck
  cases hfault : t.graph.layoutFault? a with
  | none =>
    rw [hfault] at hcheck
    rw [run_bind_ok hcheck]
    have hfits : ¬Misfit t.graph a := by
      rw [← Graph.isSome_layoutFault?, hfault]
      simp
    refine ⟨(hget h).trans (if_pos rfl), fun _ _ => rfl, by simp [hfault],
      .inl ⟨hfits, ?_, rfl⟩⟩
    show (t.registry.invalid.get? h).isSome = false
    rw [ht.unmarked]
    rfl
  | some fault =>
    rw [hfault] at hcheck
    simp only at hcheck
    cases hwritable : fault.isWritable with
    | false =>
      rw [hwritable, if_neg (by simp)] at hcheck
      rw [run_bind_error hcheck]
      exact ⟨rfl, rfl, fault, rfl, hwritable⟩
    | true =>
      rw [hwritable, if_pos rfl] at hcheck
      rw [run_bind_ok hcheck]
      have hmisfit : Misfit t.graph a := by
        rw [← Graph.isSome_layoutFault?, hfault]
        rfl
      refine ⟨(hget h).trans (if_pos rfl), fun x hx => ?_, by simp [hfault, hwritable],
        .inr ⟨hmisfit, isInvalid_marked [], ?_⟩⟩
      · show (t.registry.markInvalid h fault.message).invalid.get? x = _
        rw [Registry.get?_markInvalid, if_neg (Ne.symm hx)]
      · show t.diagnostics ++ _ = t.diagnostics ++ _
        rw [layoutReport_of_marked rfl ht.unmarked hkey]

end

/-! ## 2. Requests -/

/-- What a request leads to, for one reference or for several, whether it returns or stops. -/
inductive Served (task : Task σ) (s s' : State σ) : Prop
  | returned {limits : Limits} {ref : Ref} {root : Handle} :
      resolve task limits ref s = .ok root s' → Served task s s'
  | stopped {limits : Limits} {ref : Ref} {e : Stop} :
      resolve task limits ref s = .error e s' → Served task s s'
  | returnedAll {limits : Limits} {refs : List Ref} {roots : List Handle} :
      resolveAll task limits refs s = .ok roots s' → Served task s s'
  | stoppedAll {limits : Limits} {refs : List Ref} {e : Stop} :
      resolveAll task limits refs s = .error e s' → Served task s s'

variable {task : Task σ}

theorem keeping_start (session : σ) : Keeping module (State.start session) where
  toHolding := (settled_start module session).toSound.holding.mono fun _ _ => trivial
  judged := by
    have hnone : ∀ h a, (State.start session).graph.get h ≠ .aggregate a := fun h a ha =>
      absurd (Graph.lt_count_of_aggregate ha) (Nat.not_lt_zero h)
    refine ⟨fun h hh => ?_, fun h a ha => absurd ha (hnone h a), [], List.nodup_nil,
      fun h => ?_, rfl⟩
    · cases hh
    · exact iff_of_false List.not_mem_nil fun ⟨a, ha, _⟩ => hnone h a ha

theorem Served.keeping (h : Served task s s') (hs : Keeping task.module s) :
    Keeping task.module s' := by
  have hone (limits : Limits) (ref : Ref) :=
    (declares_declare task limits.depth s ref hs.toWellFormed).keeping_drained hs
      limits.depth limits.total
  have hall (limits : Limits) (refs : List Ref) :=
    (steps_declareAll (declares_declare task limits.depth) refs hs.toWellFormed).keeping_drained hs
      limits.depth limits.total
  cases h with
  | returned hrun => exact (hone _ _).of_ok hrun
  | stopped hrun => exact (hone _ _).of_error hrun
  | returnedAll hrun => exact (hall _ _).of_ok hrun
  | stoppedAll hrun => exact (hall _ _).of_error hrun

/-- What ended, and was not cut off by a cycle, is invalid exactly when a part of it does not fit;
what has not ended is valid. The reports of layouts are those of the misfits, one each. -/
structure LayoutsDecided (module : String) (s : State σ) : Prop where
  decided : ∀ h a, s.graph.get h = .aggregate a → a.stage = .complete → ¬IsAborted s h →
    (s.registry.isInvalid h = true ↔ Misfit s.graph a)
  unfinished : ∀ h, IsGrowing s.graph h → s.registry.isInvalid h = false
  reported : ∃ misfits : List Handle, misfits.Nodup ∧ (∀ h, h ∈ misfits ↔ IsMisfit s h) ∧
    layoutReports s = misfits.map (layoutReport module s)

theorem Judged.layoutsDecided (hj : Judged module s) : LayoutsDecided module s where
  decided := fun h a ha hc hnot => by
    rw [← Graph.isSome_layoutFault?, Registry.isInvalid_iff, hj.reasons h a ha hc hnot,
      ← Option.isSome_iff_exists, Option.isSome_map]
  unfinished := fun h hh => by
    cases hi : s.registry.isInvalid h with
    | false => rfl
    | true => exact absurd hh (hj.ended h hi).not_growing
  reported := hj.reports

/-- **The layout rule is decided.** After any requests, returned or stopped, exactly the misfits
are invalid for their layout, with one report each. And wherever an aggregate took its parts it
ends with that verdict and no other mark changes, unless the words of its fault cannot be written:
then the request stops, and the aggregate is left without an end and without a mark. -/
theorem layouts_decided (task : Task σ) :
    (∀ session s, Relation.ReflTransGen (Served task) (State.start session) s →
      LayoutsDecided task.module s) ∧
    ∀ (declare : Ref → Run σ Handle) (define : Handle → Run σ Unit) (h : Handle) (shape : Shape)
      (s t : State σ) (a : Aggregate),
      (do defineBases declare define h shape.bases
          defineFields declare define h shape.fields : Run σ Unit) s = .ok () t →
      Unjudged t h a →
      Ensures (defineCaught task declare define h shape) s
        (fun _ s' => Decided task.module t s' h a)
        fun e s' => s' = t ∧ e = .tooManyDigits ∧
          ∃ fault, t.graph.layoutFault? a = some fault ∧ fault.isWritable = false := by
  refine ⟨fun session s hs => ?_, fun declare define h shape s t a hparts ht =>
    decides_defineCaught task hparts ht⟩
  have hkeeping : Keeping task.module s := by
    induction hs with
    | refl => exact keeping_start session
    | tail _ hlast ih => exact hlast.keeping ih
  exact hkeeping.judged.layoutsDecided

/-- Tables of a struct whose field fits, one whose field begins at its end, and one whose
bit-field ends at a bit that has too many digits. -/
def layoutTables : Catalog :=
  ((Catalog.add {} "m" (holder "Fits" 0 none) none).add "m" (holder "Over" 4 none) none).add "m"
    (holder "Wide" 0 (some (.ofNat (Nat.pow 10 Text.mostDigits - 1)))) none
where
  /-- A struct of four bytes with one field. -/
  holder (name : String) (offset : Int) (bit : Option Int) : Shape :=
    Shape.ofAggregate name (some 4) [⟨"x", .name "int", offset, bit, bit.map fun _ => 1, false⟩] []
      false

/-- The struct whose field begins at its end, as it ends. -/
def overAggregate : Aggregate :=
  { name := "Over", size := some 4, fields := [{ name := "x", type := 2, offset := 4 }],
    stage := .complete }

/-- A state in which that struct is being defined, before it took its field. -/
def overPlaced : State Session :=
  { State.start ⟨layoutTables, false⟩ with
    graph := ({} : Graph).push (.aggregate { name := "Over", size := some 4 })
    registry := ({} : Registry Key).bind (.named "Over") 0 }

/-- The struct there with its field, not judged yet. -/
def overTaken : Aggregate :=
  { name := "Over", size := some 4, fields := [{ name := "x", type := 1, offset := 4 }] }

/-- The struct with the bit-field, as it is left. -/
def wideAggregate : Aggregate where
  name := "Wide"
  size := some 4
  fields := [⟨"x", 1, 0, some (.ofNat (Nat.pow 10 Text.mostDigits - 1)), some 1, false⟩]

/-- The struct whose field begins at its end is invalid, after a request for it and wherever it
took that field. -/
theorem layouts_decided_tables :
    (∃ s, Relation.ReflTransGen (Served ⟨Session.source {}, "m"⟩)
        (State.start ⟨layoutTables, false⟩) s ∧
      s.graph.get 1 = .aggregate overAggregate ∧ s.registry.isInvalid 0 = false ∧
      (s.registry.isInvalid 1 = true ↔ Misfit s.graph overAggregate) ∧
      Misfit s.graph overAggregate) ∧
    ∃ t s' : State Session, Unjudged t 0 overTaken ∧
      defineCaught ⟨Session.source {}, "m"⟩ (declare ⟨Session.source {}, "m"⟩ 8)
          (define ⟨Session.source {}, "m"⟩ 8 8) 0 (layoutTables.holder "Over" 4 none) overPlaced =
        .ok () s' ∧
      Decided "m" t s' 0 overTaken ∧ s'.registry.isInvalid 0 = true := by
  constructor
  · have hruns : returns (resolveAll ⟨Session.source {}, "m"⟩ ⟨8, 8⟩ [.name "Fits", .name "Over"])
        (State.start ⟨layoutTables, false⟩) (fun _ s =>
          decide (s.graph.get 1 = .aggregate overAggregate ∧ s.registry.isInvalid 0 = false ∧
            s.registry.invalid.get? 1 =
              some (LayoutFault.field { name := "x", type := 2, offset := 4 } (some 4)).message)) =
        true := by decide +kernel
    obtain ⟨roots, s, hrun, hcheck⟩ := exists_of_returns hruns
    obtain ⟨hget, hvalid, hmark⟩ := of_decide_eq_true hcheck
    have hs : Relation.ReflTransGen (Served ⟨Session.source {}, "m"⟩)
        (State.start ⟨layoutTables, false⟩) s := .single (.returnedAll hrun)
    have hnot : ¬IsAborted s 1 := by
      rintro ⟨path, hpath⟩
      rw [hmark] at hpath
      exact LayoutFault.message_ne _ path (Option.some.inj hpath)
    have hrule := ((layouts_decided ⟨Session.source {}, "m"⟩).1 _ s hs).decided 1 _ hget rfl hnot
    exact ⟨s, hs, hget, hvalid, hrule, hrule.mp ((Registry.isInvalid_iff _ _).mpr ⟨_, hmark⟩)⟩
  · have hruns : returns (do
        defineBases (declare ⟨Session.source {}, "m"⟩ 8) (define ⟨Session.source {}, "m"⟩ 8 8) 0
          (layoutTables.holder "Over" 4 none).bases
        defineFields (declare ⟨Session.source {}, "m"⟩ 8) (define ⟨Session.source {}, "m"⟩ 8 8) 0
          (layoutTables.holder "Over" 4 none).fields) overPlaced (fun _ t =>
        decide (t.graph.get 0 = .aggregate overTaken ∧ t.registry.invalid.get? 0 = none ∧
          (t.registry.keyOf? 0).isSome = true ∧
          (t.graph.layoutFault? overTaken).map LayoutFault.isWritable = some true)) = true := by
      decide +kernel
    obtain ⟨_, t, hparts, hcheck⟩ := exists_of_returns hruns
    obtain ⟨hget, hunmarked, hkeyed, hwritable⟩ := of_decide_eq_true hcheck
    have ht : Unjudged t 0 overTaken := ⟨hget, rfl, hunmarked, hkeyed⟩
    have hends := (layouts_decided ⟨Session.source {}, "m"⟩).2 _ _ 0 _ overPlaced t _ hparts ht
    unfold Ensures at hends
    split at hends
    · rename_i s' hrun
      refine ⟨t, s', ht, hrun, hends, ?_⟩
      rcases hends.verdict with ⟨hfits, -, -⟩ | ⟨-, hmarked, -⟩
      · refine absurd ((Graph.isSome_layoutFault? _ _).mp ?_) hfits
        rw [← Option.isSome_map, hwritable]
        rfl
      · exact hmarked
    · obtain ⟨-, -, fault, hfault, hlong⟩ := hends
      rw [hfault, Option.map_some, hlong] at hwritable
      cases hwritable

/-- **A misfit can be left without a verdict**: the last bit of the bit-field is a number with more
digits than are written, so the request for the struct stops with the words for that, and the
struct has no end and no mark. -/
theorem exists_undecided : ∃ s a,
    resolve ⟨Session.source {}, "m"⟩ ⟨8, 8⟩ (.name "Wide") (State.start ⟨layoutTables, false⟩) =
        .error .tooManyDigits s ∧
      s.graph.get 0 = .aggregate a ∧ Misfit s.graph a ∧ ¬IsAborted s 0 ∧
      s.registry.isInvalid 0 = false ∧ layoutReports s = [] ∧ ¬IsComplete s.graph 0 := by
  have hruns : stops (resolve ⟨Session.source {}, "m"⟩ ⟨8, 8⟩ (.name "Wide"))
      (State.start ⟨layoutTables, false⟩) (fun e s => (e matches .tooManyDigits) &&
        decide (s.graph.get 0 = .aggregate wideAggregate ∧
          (s.graph.layoutFault? wideAggregate).isSome = true ∧
          s.registry.invalid.get? 0 = none ∧ layoutReports s = [])) = true := by
    decide +kernel
  obtain ⟨e, s, hrun, hcheck⟩ := exists_of_stops hruns
  obtain ⟨hstop, hleft⟩ := Bool.and_eq_true_iff.mp hcheck
  obtain ⟨hget, hfault, hunmarked, hreports⟩ := of_decide_eq_true hleft
  have he : e = .tooManyDigits := by
    cases e with
    | tooManyDigits => rfl
    | _ => cases hstop
  subst he
  refine ⟨s, wideAggregate, hrun, hget, (Graph.isSome_layoutFault? _ _).mp hfault, ?_, ?_,
    hreports, fun hc => hc.not_growing ⟨_, hget, rfl⟩⟩
  · rintro ⟨path, hpath⟩
    rw [hunmarked] at hpath
    cases hpath
  · show (s.registry.invalid.get? 0).isSome = false
    rw [hunmarked]
    rfl

end NativeTypes.Resolver
