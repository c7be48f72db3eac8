/-
NativeTypes.Proofs.Export.Steady — sources that answer the same at all times.

Such a source gives every module a result of its own (`ownResult`): an export
comes to it wherever the source stands (`exportModule_elsewhere`), and one that
is asked to stop comes to it or to the stop (`attempt_eq`). So exports one
after the other come to the modules' own outputs (`exportAll_ok`), or to a
failure that is a module's own (`exportAll_error`).

A module's own result is that of an export that is never asked to stop, from
the state in which the source starts. Both comparisons are instances of one: a
run with one source is that with another one, possibly cut short
(`Shortening`). For a source that starts elsewhere the cut never happens, and
what the two states have in common is only that both are valid.
-/
import NativeTypes.Export.Schedule
import NativeTypes.Proofs.Export.Cancelled

namespace NativeTypes

namespace Schedule

open Export

variable {σ : Type}

/-! ## 1. Two states of a source -/

/-- In all its valid states the source answers alike, and never wants the run to stop; asking it
leads from valid states to valid ones. -/
structure Steady (source : Source σ) (valid : σ → Prop) : Prop where
  goesOn : ∀ {s}, valid s → ∃ s', source.stopRequested s = (false, s') ∧ valid s'
  looked : ∀ {s t}, valid s → valid t → ∀ module ref, ∃ answer s' t',
    source.lookup s module ref = (answer, s') ∧ source.lookup t module ref = (answer, t') ∧
      valid s' ∧ valid t'
  sized : ∀ {s t}, valid s → valid t → source.pointerSize s = source.pointerSize t
  listed : ∀ {s t}, valid s → valid t → source.typeNames s = source.typeNames t

/-- A catalog answers from its tables, however often it was asked. -/
theorem steady_catalog (tables : Assoc String ModuleTable) :
    Steady Catalog.source fun c => c.tables = tables where
  goesOn h := ⟨_, rfl, h⟩
  looked := by
    rintro ⟨_, m⟩ ⟨_, n⟩ rfl rfl module ref
    exact ⟨_, ⟨_, m + 1⟩, ⟨_, n + 1⟩, rfl, rfl, rfl, rfl⟩
  sized := by
    rintro ⟨_, m⟩ ⟨_, n⟩ rfl rfl
    rfl
  listed := by
    rintro ⟨_, m⟩ ⟨_, n⟩ rfl rfl
    rfl

variable {source : Source σ} {valid : σ → Prop}

/-- An export that is never asked to stop, and one that is from some question on. -/
def aborting (hsteady : Steady source valid) (first : Nat) (module : String) :
    Shortening (source.stopFrom none) (source.stopFrom (some first)) module where
  level a b := a = b ∧ valid a.inner
  free a b := a = b ∧ valid a.inner
  late _ := True
  halted _ := True
  level_of_free := id
  polled := by
    rintro a _ ⟨rfl, ha⟩
    obtain ⟨s', hs', hvalid⟩ := hsteady.goesOn ha
    refine ⟨⟨s', a.polls + 1⟩, ⟨s', a.polls + 1⟩, ?_, ?_⟩
    · simp [Source.stopFrom, hs']
    · by_cases hfirst : first ≤ a.polls
      · exact .inr ⟨by simp [Source.stopFrom, hs', hfirst], trivial, trivial⟩
      · exact .inl ⟨by simp [Source.stopFrom, hs', hfirst], rfl, hvalid⟩
  looked := by
    rintro a _ ⟨rfl, ha⟩ ref
    obtain ⟨answer, s', t', hs, -, hvalid, -⟩ := hsteady.looked ha ha module ref
    refine ⟨answer, ⟨s', a.polls⟩, ⟨s', a.polls⟩, ?_, ?_, fun _ _ => ⟨rfl, hvalid⟩⟩
    · simp [Source.stopFrom, Source.within, hs]
    · simp [Source.stopFrom, Source.within, hs]
  sized := by
    rintro a _ ⟨rfl, -⟩
    rfl
  listed := by
    rintro a _ ⟨rfl, -⟩
    rfl
  late_polled := id
  late_looked := fun h _ => h

/-- An export that is never asked to stop, and one that starts from another state. -/
def elsewhere (hsteady : Steady source valid) (module : String) :
    Shortening (source.stopFrom none) source module where
  level a b := valid a.inner ∧ valid b
  free a b := valid a.inner ∧ valid b
  late _ := True
  halted _ := False
  level_of_free := id
  polled := by
    rintro a b ⟨ha, hb⟩
    obtain ⟨s', hs', hs⟩ := hsteady.goesOn ha
    obtain ⟨t', ht', ht⟩ := hsteady.goesOn hb
    exact ⟨⟨s', a.polls + 1⟩, t', by simp [Source.stopFrom, hs'], .inl ⟨ht', hs, ht⟩⟩
  looked := by
    rintro a b ⟨ha, hb⟩ ref
    obtain ⟨answer, s', t', hs, ht, hs', ht'⟩ := hsteady.looked ha hb module ref
    refine ⟨answer, ⟨s', a.polls⟩, t', ?_, ht, fun _ _ => ⟨hs', ht'⟩⟩
    simp [Source.stopFrom, Source.within, hs]
  sized := by
    rintro a b ⟨ha, hb⟩
    exact congrFun (hsteady.sized ha hb) module
  listed := by
    rintro a b ⟨ha, hb⟩
    exact congrFun (hsteady.listed ha hb) module
  late_polled := id
  late_looked := fun h _ => h

/-! ## 2. Results of modules -/

/-- How a run ends, without the state that it leaves. -/
def outcome {α : Type} : EStateM.Result ExportFailure σ α → Except ExportFailure α
  | .ok x _ => .ok x
  | .error e _ => .error e

variable {plan : Plan σ} {request : ModuleRequest}

/-- What an attempt comes to is how its export ends. -/
theorem attempt_fst (plan : Plan σ) (request : ModuleRequest) (first : Option Nat) :
    (attempt plan request first).1 = outcome (exportModule (plan.source.stopFrom first)
      plan.settings request { inner := plan.start }) := by
  unfold attempt
  cases exportModule (plan.source.stopFrom first) plan.settings request { inner := plan.start } with
  | ok output s => rfl
  | error failure s => rfl

/-- A module's output is called by the module. -/
theorem module_of_ownResult {output : ModuleOutput} (h : ownResult plan request = .ok output) :
    output.module = request.module := by
  rw [ownResult, attempt_fst] at h
  cases hrun : exportModule (plan.source.stopFrom none) plan.settings request
      { inner := plan.start } with
  | ok other s =>
    rw [hrun] at h
    cases h
    obtain ⟨_, _, _, _, _, -, -, -, -, rfl⟩ := exists_of_exportModule_ok hrun
    rfl
  | error failure s =>
    rw [hrun] at h
    cases h

section

variable (hsteady : Steady plan.source valid) (hstart : valid plan.start)

include hsteady hstart

/-- An export that is asked to stop ends as it does by itself, or is cancelled. -/
theorem attempt_eq (request : ModuleRequest) (first : Nat) :
    (attempt plan request (some first)).1 = ownResult plan request ∨
      (attempt plan request (some first)).1 = .error (.cancelled request.module) := by
  have hends := (exportModule_shortens (S := aborting hsteady first request.module) plan.settings
    request.roots).shortened { inner := plan.start } { inner := plan.start } ⟨rfl, hstart⟩
  rw [ownResult, attempt_fst, attempt_fst]
  generalize exportModule (plan.source.stopFrom none) plan.settings request
    { inner := plan.start } = r at hends ⊢
  generalize exportModule (plan.source.stopFrom (some first)) plan.settings request
    { inner := plan.start } = r' at hends ⊢
  cases hends with
  | returned _ => exact .inl rfl
  | failed => exact .inl rfl
  | halted _ _ => exact .inr rfl

/-- An export ends alike wherever the source stands. -/
theorem exportModule_elsewhere (request : ModuleRequest) {s : σ} (hs : valid s) :
    (∃ output s', ownResult plan request = .ok output ∧ valid s' ∧
        exportModule plan.source plan.settings request s = .ok output s') ∨
      ∃ failure s', ownResult plan request = .error failure ∧
        exportModule plan.source plan.settings request s = .error failure s' := by
  have hends := (exportModule_shortens (S := elsewhere hsteady request.module) plan.settings
    request.roots).shortened { inner := plan.start } s ⟨hstart, hs⟩
  rw [ownResult, attempt_fst]
  generalize exportModule (plan.source.stopFrom none) plan.settings request
    { inner := plan.start } = r at hends ⊢
  generalize hr : exportModule plan.source plan.settings request s = r' at hends ⊢
  cases hends with
  | returned hfree => exact .inl ⟨_, _, rfl, hfree.2, rfl⟩
  | failed => exact .inr ⟨_, _, rfl, rfl⟩
  | halted _ hhalted => exact hhalted.elim

/-- If every module has an output of its own, exporting one after the other gives these. -/
theorem exportAll_ok {requests : List ModuleRequest}
    (hown : ∀ r ∈ requests, ∃ output, ownResult plan r = .ok output) {s : σ} (hs : valid s) :
    ∃ s', exportAll plan.source plan.settings requests s =
      .ok (requests.filterMap fun r => (ownResult plan r).toOption) s' := by
  induction requests generalizing s with
  | nil => exact ⟨s, rfl⟩
  | cons request rest ih =>
    rcases exportModule_elsewhere hsteady hstart request hs with
      ⟨output, s', houtput, hs', hrun⟩ | ⟨failure, _, hfailure, -⟩
    · obtain ⟨s'', hrest⟩ := ih (fun r hr => hown r (List.mem_cons_of_mem _ hr)) hs'
      refine ⟨s'', ?_⟩
      unfold exportAll
      rw [run_bind_ok hrun, run_bind_ok hrest, run_pure]
      simp [houtput, Except.toOption]
    · obtain ⟨output, houtput⟩ := hown request List.mem_cons_self
      rw [hfailure] at houtput
      cases houtput

/-- If a module has none, exporting one after the other ends as some module does. -/
theorem exportAll_error {requests : List ModuleRequest}
    (hown : ∃ r ∈ requests, ∃ failure, ownResult plan r = .error failure) {s : σ}
    (hs : valid s) : ∃ r ∈ requests, ∃ failure s', ownResult plan r = .error failure ∧
      exportAll plan.source plan.settings requests s = .error failure s' := by
  induction requests generalizing s with
  | nil =>
    obtain ⟨r, hr, -⟩ := hown
    cases hr
  | cons request rest ih =>
    rcases exportModule_elsewhere hsteady hstart request hs with
      ⟨output, s', houtput, hs', hrun⟩ | ⟨failure, s', hfailure, hrun⟩
    · obtain ⟨r, hr, failure, hfailure⟩ := hown
      have hrest : r ∈ rest := by
        rcases List.mem_cons.mp hr with rfl | hr
        · rw [houtput] at hfailure
          cases hfailure
        · exact hr
      obtain ⟨r', hr', failure', s'', hfailure', hall⟩ := ih ⟨r, hrest, failure, hfailure⟩ hs'
      refine ⟨r', List.mem_cons_of_mem _ hr', failure', s'', hfailure', ?_⟩
      unfold exportAll
      rw [run_bind_ok hrun, run_bind_error hall]
    · refine ⟨request, List.mem_cons_self, failure, s', hfailure, ?_⟩
      unfold exportAll
      rw [run_bind_error hrun]

end

end Schedule

end NativeTypes
