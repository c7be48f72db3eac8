/-
NativeTypes.Proofs.Export.Parallel — modules exported side by side come to what
they come to one after the other.

Every module has a result of its own: what it comes to when it is exported
alone from the start of the run. With a source that answers the same whenever
it is asked (`Steady`), an export that is asked to stop at some moment comes to
that result or to the stop (`attempt_eq`). A schedule decides only which of the
two, for every module.

1. What one step can do (`Stepped`). A task is taken up, asks one more
   question, ends by itself, is stopped, or is collected. This is an inversion
   of `step?`, and the rest of the module does not look into that function
   again.
2. What a schedule keeps (`Consistent`). A stop is asked for when a failure was
   collected, and before that every task that is over has come to its own
   result. Afterwards a task may have come to a stop instead, but then there is
   a failure that is told, and it is one that a module comes to by itself. By
   induction this holds after any steps (`Consistent.follow`).
3. Every schedule ends. Each step leaves less to do (`work_step`), where what
   is left to do is counted from the questions that the module's own export
   asks; and unless all is over some step can be taken (`exists_step`).
4. Results. When all tasks were collected, `Consistent` says what the run comes
   to, and it is said by the results of the modules alone (`run_parallel`).

That the failure which is told is never the stop that it led to is the delicate
point. A stop can be collected before the failure that caused it was told only
if it came first; but nobody is asked to stop before a failure was collected.
So the first failure that is collected is always a module's own, and it is
kept, since a stop does not replace a failure and a failure of a run is not a
stop.
-/
import Mathlib.Algebra.Order.BigOperators.Group.Finset
import NativeTypes.Proofs.Export.Steady
import NativeTypes.Proofs.Text.Sorted

namespace NativeTypes

/-- The failure of a run: the source failed to list types, or to resolve a root. -/
def ExportFailure.isRunFailure : ExportFailure → Bool
  | listing .. | resolving .. => true
  | _ => false

/-- A failure of a run is one that the collector expects. -/
theorem ExportFailure.isExpected_of_isRunFailure {failure : ExportFailure}
    (h : failure.isRunFailure = true) : failure.isExpected = true := by
  cases failure with
  | listing module fault => rfl
  | resolving module root last fault => rfl
  | _ => cases h

/-- It is no stop. -/
theorem ExportFailure.isCancelled_of_isRunFailure {failure : ExportFailure}
    (h : failure.isRunFailure = true) : failure.isCancelled = false := by
  cases failure with
  | cancelled module => cases h
  | _ => rfl

namespace Schedule

open Export

variable {σ : Type} {plan : Plan σ} {valid : σ → Prop}

/-! ## 1. Steps

The data of a schedule are the tasks, one for each request, and what was collected so far. -/

variable {s s' : State}

/-- What one step can do. -/
inductive Stepped (plan : Plan σ) (s : State) : State → Prop
  | taken {place : Nat} : s.tasks[place]? = some .waiting →
      (s.tasks.take place).any Task.isWaiting = false →
      s.tasks.countP Task.isExporting < plan.workers →
      Stepped plan s (s.put place (.exporting 0))
  | asked {place polls : Nat} {request : ModuleRequest} :
      s.tasks[place]? = some (.exporting polls) → plan.requests[place]? = some request →
      s.aborted = false → polls < (attempt plan request none).2 →
      Stepped plan s (s.put place (.exporting (polls + 1)))
  | ended {place polls : Nat} {request : ModuleRequest} :
      s.tasks[place]? = some (.exporting polls) → plan.requests[place]? = some request →
      s.aborted = false → (attempt plan request none).2 ≤ polls →
      Stepped plan s (s.put place (.finished (ownResult plan request)))
  | stopped {place polls : Nat} {request : ModuleRequest} :
      s.tasks[place]? = some (.exporting polls) → plan.requests[place]? = some request →
      s.aborted = true →
      Stepped plan s (s.put place (.finished (attempt plan request (some polls)).1))
  | output {place : Nat} {output : ModuleOutput} : s.escaped = none →
      s.tasks[place]? = some (.finished (.ok output)) →
      Stepped plan s { s.put place .collected with outputs := s.outputs ++ [output] }
  | failure {place : Nat} {failure : ExportFailure} : s.escaped = none →
      s.tasks[place]? = some (.finished (.error failure)) →
      Stepped plan s ((s.put place .collected).fail failure)

/-- Every step is one of these six. -/
theorem stepped_of_step {a : Action} (hstep : step? plan s a = some s') : Stepped plan s s' := by
  cases a with
  | take place =>
    simp only [step?, take?] at hstep
    split at hstep
    · rename_i htask
      split at hstep
      · cases hstep
      · rename_i hfree
        cases hstep
        simp only [Bool.or_eq_true, decide_eq_true_eq, not_or, Bool.not_eq_true, not_le] at hfree
        exact .taken htask hfree.1 hfree.2
    · cases hstep
  | advance place =>
    simp only [step?, advance?] at hstep
    split at hstep
    · rename_i polls request htask hrequest
      split at hstep
      · rename_i haborted
        cases hstep
        exact .stopped htask hrequest haborted
      · rename_i haborted
        split at hstep
        · rename_i hpolls
          cases hstep
          exact .asked htask hrequest (Bool.not_eq_true _ ▸ haborted) hpolls
        · rename_i hpolls
          cases hstep
          exact .ended htask hrequest (Bool.not_eq_true _ ▸ haborted) (not_lt.mp hpolls)
    · cases hstep
  | collect place =>
    simp only [step?, collect?] at hstep
    split at hstep
    · cases hstep
    · rename_i hescaped
      have hnone : s.escaped = none := by simpa using hescaped
      split at hstep
      · rename_i output htask
        cases hstep
        exact .output hnone htask
      · rename_i failure htask
        cases hstep
        exact .failure hnone htask
      · cases hstep

/-! ## 2. What a schedule keeps

The invariant, for the first state and for each kind of step. -/

/-- What is true whatever was done: a task that is over has come to its module's own result, or,
once a stop was asked for, to that stop; a failure that is told is a module's own; and before
that the outputs are those of the modules that were collected. -/
structure Consistent (plan : Plan σ) (s : State) : Prop where
  length : s.tasks.length = plan.requests.length
  finished : ∀ {i : Nat} {result : Except ExportFailure ModuleOutput} {request : ModuleRequest},
    s.tasks[i]? = some (.finished result) → plan.requests[i]? = some request →
      result = ownResult plan request ∨
        s.aborted = true ∧ result = .error (.cancelled request.module)
  escaped : s.escaped = none
  failed : s.aborted = true → ∃ failure, s.failure = some failure ∧
    ∃ request ∈ plan.requests, ownResult plan request = .error failure
  unfailed : s.aborted = false → s.failure = none ∧
    ∀ {i : Nat} {request : ModuleRequest}, s.tasks[i]? = some .collected →
      plan.requests[i]? = some request → ∃ output ∈ s.outputs, ownResult plan request = .ok output
  outputs : ∀ output ∈ s.outputs, ∃ (i : Nat) (request : ModuleRequest),
    s.tasks[i]? = some .collected ∧ plan.requests[i]? = some request ∧
      ownResult plan request = .ok output
  distinct : (s.outputs.map ModuleOutput.module).Nodup

/-- No task was touched yet. -/
theorem eq_waiting_of_initial {requests : List ModuleRequest} {i : Nat} {t : Task}
    (h : (State.initial requests).tasks[i]? = some t) : t = .waiting := by
  obtain ⟨request, -, rfl⟩ := List.mem_map.mp (List.mem_of_getElem? h)
  rfl

/-- At the start no task was touched. -/
theorem consistent_initial (plan : Plan σ) : Consistent plan (.initial plan.requests) where
  length := List.length_map _
  finished h := by cases eq_waiting_of_initial h
  escaped := rfl
  failed h := by cases h
  unfailed _ := ⟨rfl, fun h => by cases eq_waiting_of_initial h⟩
  outputs _ h := by cases h
  distinct := List.nodup_nil

/-- A step changes the task at one place. -/
theorem getElem?_put {place i : Nat} (hplace : place < s.tasks.length) (t : Task) :
    (s.put place t).tasks[i]? = if place = i then some t else s.tasks[i]? := by
  show (s.tasks.set place t)[i]? = _
  rw [List.getElem?_set]
  split
  · rfl
  · rfl

/-- What was collected stays so. -/
theorem collected_put {place i : Nat} (hplace : place < s.tasks.length) :
    (s.put place .collected).tasks[i]? = some .collected ↔
      place = i ∨ s.tasks[i]? = some .collected := by
  rw [getElem?_put hplace]
  split
  · simp [*]
  · simp [*]

/-- Collecting finishes no other task. -/
theorem finished_of_put {place i : Nat} (hplace : place < s.tasks.length)
    {result : Except ExportFailure ModuleOutput}
    (h : (s.put place .collected).tasks[i]? = some (.finished result)) :
    s.tasks[i]? = some (.finished result) := by
  rw [getElem?_put hplace] at h
  split at h
  · cases h
  · exact h

namespace Consistent

variable (h : Consistent plan s)

include h

/-- A task that was not collected becomes another one that is not. -/
theorem put {place : Nat} {old t : Task} (hold : s.tasks[place]? = some old)
    (hopen : old ≠ .collected) (hnew : t ≠ .collected)
    (hfinished : ∀ {result request}, t = .finished result →
      plan.requests[place]? = some request → result = ownResult plan request ∨
        s.aborted = true ∧ result = .error (.cancelled request.module)) :
    Consistent plan (s.put place t) := by
  have hplace : place < s.tasks.length := (List.getElem?_eq_some_iff.mp hold).1
  have hcollected (i : Nat) : (s.put place t).tasks[i]? = some .collected ↔
      s.tasks[i]? = some .collected := by
    rw [getElem?_put hplace]
    split
    · rename_i heq
      subst heq
      simp [hold, hopen, hnew]
    · exact Iff.rfl
  refine ⟨?_, ?_, h.escaped, h.failed, ?_, ?_, h.distinct⟩
  · rw [State.put, List.length_set]
    exact h.length
  · intro i result request htask hrequest
    rw [getElem?_put hplace] at htask
    split at htask
    · rename_i heq
      subst heq
      exact hfinished (Option.some.inj htask) hrequest
    · exact h.finished htask hrequest
  · intro haborted
    refine ⟨(h.unfailed haborted).1, fun {i request} htask hrequest => ?_⟩
    exact (h.unfailed haborted).2 ((hcollected i).mp htask) hrequest
  · intro output houtput
    obtain ⟨i, request, htask, hrest⟩ := h.outputs output houtput
    exact ⟨i, request, (hcollected i).mpr htask, hrest⟩

/-- The request of a task. -/
theorem exists_request {place : Nat} {t : Task} (htask : s.tasks[place]? = some t) :
    ∃ request, plan.requests[place]? = some request := by
  have hplace := (List.getElem?_eq_some_iff.mp htask).1
  rw [h.length] at hplace
  exact ⟨_, List.getElem?_eq_getElem hplace⟩

/-- An output is collected: it is the module's own. -/
theorem collect_output (hmodules : (plan.requests.map ModuleRequest.module).Nodup) {place : Nat}
    {output : ModuleOutput} (htask : s.tasks[place]? = some (.finished (.ok output))) :
    Consistent plan { s.put place .collected with outputs := s.outputs ++ [output] } := by
  have hplace : place < s.tasks.length := (List.getElem?_eq_some_iff.mp htask).1
  obtain ⟨request, hrequest⟩ := h.exists_request htask
  have hown : ownResult plan request = .ok output := by
    rcases h.finished htask hrequest with hown | ⟨-, hcancelled⟩
    · exact hown.symm
    · cases hcancelled
  refine ⟨?_, ?_, h.escaped, h.failed, ?_, ?_, ?_⟩
  · exact (List.length_set ..).trans h.length
  · intro i result other hfinished hother
    exact h.finished (finished_of_put hplace hfinished) hother
  · intro haborted
    refine ⟨(h.unfailed haborted).1, fun {i other} hcollected hother => ?_⟩
    rcases (collected_put hplace).mp hcollected with rfl | hold
    · cases hrequest.symm.trans hother
      exact ⟨output, List.mem_append_right _ (List.mem_singleton.mpr rfl), hown⟩
    · obtain ⟨found, hfound, hfoundOwn⟩ := (h.unfailed haborted).2 hold hother
      exact ⟨found, List.mem_append_left _ hfound, hfoundOwn⟩
  · intro found hfound
    rcases List.mem_append.mp hfound with hfound | hfound
    · obtain ⟨i, other, hcollected, hrest⟩ := h.outputs found hfound
      exact ⟨i, other, (collected_put hplace).mpr (.inr hcollected), hrest⟩
    · obtain rfl := List.mem_singleton.mp hfound
      exact ⟨place, request, (collected_put hplace).mpr (.inl rfl), hrequest, hown⟩
  · -- the module of another output is that of another request
    rw [List.map_append]
    refine List.nodup_append.mpr ⟨h.distinct, List.nodup_singleton _, ?_⟩
    rintro _ hmem _ hlast rfl
    obtain ⟨found, hfound, hmodule⟩ := List.mem_map.mp hmem
    obtain ⟨i, other, hcollected, hother, hotherOwn⟩ := h.outputs found hfound
    rw [List.map_singleton, List.mem_singleton, module_of_ownResult hown] at hlast
    rw [module_of_ownResult hotherOwn, hlast] at hmodule
    have hi := (List.getElem?_eq_some_iff.mp hother).1
    have hat (j : Nat) : (plan.requests.map ModuleRequest.module)[j]? =
        plan.requests[j]?.map ModuleRequest.module := List.getElem?_map
    have hsame : (plan.requests.map ModuleRequest.module)[i]? =
        (plan.requests.map ModuleRequest.module)[place]? := by
      rw [hat, hat, hother, hrequest, Option.map_some, Option.map_some, hmodule]
    obtain rfl := (List.getElem?_inj (by simpa using hi) hmodules).mp hsame
    rw [htask] at hcollected
    cases hcollected

/-- A failure that is told is a module's own. -/
theorem own_of_failure {failure : ExportFailure} (hfailure : s.failure = some failure) :
    ∃ request ∈ plan.requests, ownResult plan request = .error failure := by
  cases haborted : s.aborted with
  | false => cases (h.unfailed haborted).1.symm.trans hfailure
  | true =>
    obtain ⟨told, htold, hown⟩ := h.failed haborted
    cases htold.symm.trans hfailure
    exact hown

/-- As long as no failure is told nobody is asked to stop. -/
theorem not_aborted (hfailure : s.failure = none) : s.aborted = false := by
  cases haborted : s.aborted with
  | false => rfl
  | true =>
    obtain ⟨told, htold, -⟩ := h.failed haborted
    cases htold.symm.trans hfailure

/-- A failure is collected: it is the module's own, or a stop that a module's own failure led
to. -/
theorem collect_failure (hrun : ∀ request ∈ plan.requests, ∀ failure,
      ownResult plan request = .error failure → failure.isRunFailure = true)
    {place : Nat} {failure : ExportFailure}
    (htask : s.tasks[place]? = some (.finished (.error failure))) :
    Consistent plan ((s.put place .collected).fail failure) := by
  have hplace : place < s.tasks.length := (List.getElem?_eq_some_iff.mp htask).1
  obtain ⟨request, hrequest⟩ := h.exists_request htask
  have hmem : request ∈ plan.requests := List.mem_of_getElem? hrequest
  have hexpected : failure.isExpected = true := by
    rcases h.finished htask hrequest with hown | ⟨-, hcancelled⟩
    · exact ExportFailure.isExpected_of_isRunFailure (hrun request hmem failure hown.symm)
    · cases hcancelled
      rfl
  have hfail : (s.put place .collected).fail failure = { s.put place .collected with
      aborted := true
      failure := if s.failure.all ExportFailure.isCancelled then some failure else s.failure } := by
    rw [State.fail, if_pos hexpected]
    rfl
  rw [hfail]
  refine ⟨?_, ?_, h.escaped, fun _ => ?_, nofun, ?_, h.distinct⟩
  · exact (List.length_set ..).trans h.length
  · intro i result other hfinished hother
    rcases h.finished (finished_of_put hplace hfinished) hother with hown | ⟨-, hcancelled⟩
    · exact .inl hown
    · exact .inr ⟨rfl, hcancelled⟩
  · cases hfailure : s.failure with
    | none =>
      refine ⟨failure, rfl, request, hmem, ?_⟩
      rcases h.finished htask hrequest with hown | ⟨haborted, -⟩
      · exact hown.symm
      · cases (h.not_aborted hfailure).symm.trans haborted
    | some told =>
      -- what is told already is no stop, so it stays
      obtain ⟨other, hother, hotherOwn⟩ := h.own_of_failure hfailure
      have htold : told.isCancelled = false :=
        ExportFailure.isCancelled_of_isRunFailure (hrun other hother told hotherOwn)
      exact ⟨told, by simp [htold], other, hother, hotherOwn⟩
  · intro output houtput
    obtain ⟨i, other, hcollected, hrest⟩ := h.outputs output houtput
    exact ⟨i, other, (collected_put hplace).mpr (.inr hcollected), hrest⟩

omit h in
/-- **One step keeps what is true of a schedule.** -/
theorem step (hsteady : Steady plan.source valid) (hstart : valid plan.start)
    (hmodules : (plan.requests.map ModuleRequest.module).Nodup)
    (hrun : ∀ request ∈ plan.requests, ∀ failure,
      ownResult plan request = .error failure → failure.isRunFailure = true)
    (h : Consistent plan s) {a : Action} (hstep : step? plan s a = some s') :
    Consistent plan s' := by
  cases stepped_of_step hstep with
  | taken htask => exact h.put htask nofun nofun nofun
  | asked htask => exact h.put htask nofun nofun nofun
  | ended htask hrequest =>
    refine h.put htask nofun nofun fun hresult hother => ?_
    cases hrequest.symm.trans hother
    cases hresult
    exact .inl rfl
  | @stopped place polls request htask hrequest haborted =>
    refine h.put htask nofun nofun fun hresult hother => ?_
    cases hrequest.symm.trans hother
    cases hresult
    exact (attempt_eq hsteady hstart request polls).imp_right fun hcancelled =>
      ⟨haborted, hcancelled⟩
  | output _ htask => exact h.collect_output hmodules htask
  | failure _ htask => exact h.collect_failure hrun htask

omit h in
/-- What is true of a schedule is true after any number of steps. -/
theorem follow (hsteady : Steady plan.source valid) (hstart : valid plan.start)
    (hmodules : (plan.requests.map ModuleRequest.module).Nodup)
    (hrun : ∀ request ∈ plan.requests, ∀ failure,
      ownResult plan request = .error failure → failure.isRunFailure = true)
    {schedule : List Action} (h : Consistent plan s)
    (hfollow : follow? plan s schedule = some s') : Consistent plan s' := by
  induction schedule generalizing s with
  | nil =>
    cases hfollow
    exact h
  | cons a rest ih =>
    obtain ⟨t, hstep, hrest⟩ := Option.bind_eq_some_iff.mp hfollow
    exact ih (h.step hsteady hstart hmodules hrun hstep) hrest

end Consistent

/-! ## 3. Every schedule ends

The measure is a sum over places. The questions that a module's own export asks bound those of an
export that is stopped. -/

/-- What is left to do for a task. -/
def Task.work (polls : Nat) : Task → Nat
  | waiting => polls + 3
  | exporting asked => polls - asked + 2
  | finished _ => 1
  | collected => 0

/-- What is left to do at a place. -/
def workAt (plan : Plan σ) (s : State) (place : Nat) : Nat :=
  match s.tasks[place]?, plan.requests[place]? with
  | some t, some request => t.work (attempt plan request none).2
  | _, _ => 0

/-- What is left to do. -/
def work (plan : Plan σ) (s : State) : Nat :=
  ∑ place ∈ Finset.range plan.requests.length, workAt plan s place

/-- Another task at a place leaves less to do if there is less to do for it. -/
theorem work_put {place : Nat} {old t : Task} {request : ModuleRequest}
    (htask : s.tasks[place]? = some old) (hrequest : plan.requests[place]? = some request)
    (hless : t.work (attempt plan request none).2 < old.work (attempt plan request none).2)
    (htasks : s'.tasks = (s.put place t).tasks) : work plan s' < work plan s := by
  have hplace : place < s.tasks.length := (List.getElem?_eq_some_iff.mp htask).1
  have hother (i : Nat) (hi : place ≠ i) : workAt plan s' i = workAt plan s i := by
    rw [workAt, htasks, getElem?_put hplace, if_neg hi]
    rfl
  have hhere : workAt plan s' place < workAt plan s place := by
    rw [workAt, workAt, htasks, getElem?_put hplace, if_pos rfl, htask, hrequest]
    exact hless
  refine Finset.sum_lt_sum (fun i _ => ?_) ⟨place, ?_, hhere⟩
  · by_cases hi : place = i
    · exact hi ▸ Nat.le_of_lt hhere
    · exact Nat.le_of_eq (hother i hi)
  · exact Finset.mem_range.mpr (List.getElem?_eq_some_iff.mp hrequest).1

/-- A failure that is told changes no task. -/
theorem tasks_fail (s : State) (failure : ExportFailure) : (s.fail failure).tasks = s.tasks := by
  unfold State.fail
  split
  · rfl
  · rfl

/-- A step touches the task at one place, and leaves less to do for it. -/
theorem Stepped.exists_put (h : Stepped plan s s') : ∃ place old t,
    s.tasks[place]? = some old ∧ s'.tasks = (s.put place t).tasks ∧
      ∀ request, plan.requests[place]? = some request →
        t.work (attempt plan request none).2 < old.work (attempt plan request none).2 := by
  cases h with
  | taken htask => exact ⟨_, _, _, htask, rfl, fun _ _ => by simp only [Task.work]; omega⟩
  | asked htask hrequest _ hpolls =>
    refine ⟨_, _, _, htask, rfl, fun other hother => ?_⟩
    cases hrequest.symm.trans hother
    simp only [Task.work]
    omega
  | ended htask => exact ⟨_, _, _, htask, rfl, fun _ _ => by simp only [Task.work]; omega⟩
  | stopped htask => exact ⟨_, _, _, htask, rfl, fun _ _ => by simp only [Task.work]; omega⟩
  | output _ htask => exact ⟨_, _, _, htask, rfl, fun _ _ => Nat.zero_lt_one⟩
  | failure _ htask => exact ⟨_, _, _, htask, tasks_fail _ _, fun _ _ => Nat.zero_lt_one⟩

/-- **Every step leaves less to do.** -/
theorem work_step (hlength : s.tasks.length = plan.requests.length) {a : Action}
    (hstep : step? plan s a = some s') :
    work plan s' < work plan s ∧ s'.tasks.length = plan.requests.length := by
  obtain ⟨place, old, t, htask, htasks, hless⟩ := (stepped_of_step hstep).exists_put
  have hplace := (List.getElem?_eq_some_iff.mp htask).1
  rw [hlength] at hplace
  have hrequest := List.getElem?_eq_getElem hplace
  refine ⟨work_put htask hrequest (hless _ hrequest) htasks, ?_⟩
  rw [htasks]
  exact (List.length_set ..).trans hlength

/-- A schedule is no longer than there is to do. -/
theorem length_le_of_follow {schedule : List Action}
    (hlength : s.tasks.length = plan.requests.length)
    (hfollow : follow? plan s schedule = some s') :
    schedule.length + work plan s' ≤ work plan s ∧ s'.tasks.length = plan.requests.length := by
  induction schedule generalizing s with
  | nil =>
    cases hfollow
    exact ⟨by simp, hlength⟩
  | cons a rest ih =>
    obtain ⟨t, hstep, hrest⟩ := Option.bind_eq_some_iff.mp hfollow
    obtain ⟨hless, hlength'⟩ := work_step hlength hstep
    obtain ⟨hle, hlength''⟩ := ih hlength' hrest
    exact ⟨by rw [List.length_cons]; omega, hlength''⟩

/-- An export that is going on can go on, or come to its end. -/
theorem exists_advance (hlength : s.tasks.length = plan.requests.length) {place polls : Nat}
    (htask : s.tasks[place]? = some (.exporting polls)) :
    ∃ s', step? plan s (.advance place) = some s' := by
  have hplace := (List.getElem?_eq_some_iff.mp htask).1
  rw [hlength] at hplace
  simp only [step?, advance?, htask, List.getElem?_eq_getElem hplace]
  split
  · exact ⟨_, rfl⟩
  · split
    · exact ⟨_, rfl⟩
    · exact ⟨_, rfl⟩

/-- If nobody works, the first task that waits can be taken up. -/
theorem exists_take (hworkers : 0 < plan.workers)
    (hidle : ∀ place polls : Nat, s.tasks[place]? ≠ some (.exporting polls))
    (hwaits : ∃ place : Nat, s.tasks[place]? = some .waiting) :
    ∃ place s', step? plan s (.take place) = some s' := by
  classical
  refine ⟨Nat.find hwaits, s.put (Nat.find hwaits) (.exporting 0), ?_⟩
  have hfirst : (s.tasks.take (Nat.find hwaits)).any Task.isWaiting = false := by
    rw [List.any_eq_false]
    intro t ht hwaiting
    obtain ⟨i, hi⟩ := List.getElem?_of_mem ht
    rw [List.getElem?_take] at hi
    split at hi
    · rename_i hlt
      refine Nat.find_min hwaits hlt (hi.trans ?_)
      cases t with
      | waiting => rfl
      | _ => cases hwaiting
    · cases hi
  have hnone : s.tasks.countP Task.isExporting = 0 := by
    rw [List.countP_eq_zero]
    intro t ht hexporting
    obtain ⟨i, hi⟩ := List.getElem?_of_mem ht
    cases t with
    | exporting polls => exact hidle i polls hi
    | _ => cases hexporting
  simp only [step?, take?, Nat.find_spec hwaits, hfirst, hnone]
  rw [if_neg (by simpa using Nat.pos_iff_ne_zero.mp hworkers)]

/-- **Unless all is over, some step can be taken.** -/
theorem exists_step (hworkers : 0 < plan.workers)
    (hlength : s.tasks.length = plan.requests.length) (hopen : s.result? = none) :
    ∃ a s', step? plan s a = some s' := by
  by_cases hexporting : ∃ place polls : Nat, s.tasks[place]? = some (.exporting polls)
  · obtain ⟨place, polls, htask⟩ := hexporting
    exact ⟨_, exists_advance hlength htask⟩
  have hidle (place polls : Nat) : s.tasks[place]? ≠ some (.exporting polls) :=
    fun htask => hexporting ⟨place, polls, htask⟩
  by_cases hwaits : ∃ place : Nat, s.tasks[place]? = some .waiting
  · obtain ⟨place, hstep⟩ := exists_take hworkers hidle hwaits
    exact ⟨_, hstep⟩
  have hover : s.tasks.all Task.isOver = true := by
    rw [List.all_eq_true]
    intro t ht
    obtain ⟨i, hi⟩ := List.getElem?_of_mem ht
    cases t with
    | waiting => exact absurd ⟨i, hi⟩ hwaits
    | exporting polls => exact absurd hi (hidle i polls)
    | finished result => rfl
    | collected => rfl
  cases hescaped : s.escaped with
  | some failure =>
    simp [State.result?, hescaped, hover] at hopen
  | none =>
    have hnot : s.tasks.all Task.isCollected = false := by
      cases hall : s.tasks.all Task.isCollected with
      | false => rfl
      | true =>
        simp [State.result?, hescaped, hall] at hopen
    obtain ⟨t, ht, hopenTask⟩ := List.all_eq_false.mp hnot
    obtain ⟨i, hi⟩ := List.getElem?_of_mem ht
    cases t with
    | waiting => exact absurd ⟨i, hi⟩ hwaits
    | exporting polls => exact absurd hi (hidle i polls)
    | collected => exact absurd rfl hopenTask
    | finished result =>
      refine ⟨.collect i, ?_⟩
      cases result with
      | ok output => exact ⟨_, by simp only [step?, collect?, hescaped, hi]; rfl⟩
      | error failure => exact ⟨_, by simp only [step?, collect?, hescaped, hi]; rfl⟩

/-- Following two schedules one after the other. -/
theorem follow?_append (first rest : List Action) :
    follow? plan s (first ++ rest) = (follow? plan s first).bind (follow? plan · rest) := by
  induction first generalizing s with
  | nil => rfl
  | cons a first ih =>
    simp only [List.cons_append, follow?, Option.bind_assoc]
    congr 1
    funext t
    exact ih

/-- **From every state some steps lead to a result.** -/
theorem exists_result (hworkers : 0 < plan.workers)
    (hlength : s.tasks.length = plan.requests.length) :
    ∃ rest result, (follow? plan s rest).bind State.result? = some result := by
  induction hwork : work plan s using Nat.strongRecOn generalizing s with
  | ind n ih =>
    subst hwork
    cases hresult : s.result? with
    | some result => exact ⟨[], result, hresult⟩
    | none =>
      obtain ⟨a, t, hstep⟩ := exists_step hworkers hlength hresult
      obtain ⟨hless, hlength'⟩ := work_step hlength hstep
      obtain ⟨rest, result, hrest⟩ := ih _ hless hlength' rfl
      refine ⟨a :: rest, result, ?_⟩
      rw [follow?, hstep]
      exact hrest

/-! ## 4. Results

What a schedule comes to is read off its last state; what one worker comes to is computed from
the requests in order. -/

/-- The outputs of the modules that have one of their own. -/
def ownOutputs (plan : Plan σ) : List ModuleOutput :=
  plan.requests.filterMap fun request => (ownResult plan request).toOption

/-- The outputs of modules are those of their requests. -/
theorem mem_ownOutputs {output : ModuleOutput} :
    output ∈ ownOutputs plan ↔ ∃ request ∈ plan.requests, ownResult plan request = .ok output := by
  rw [ownOutputs, List.mem_filterMap]
  refine exists_congr fun request => and_congr_right fun _ => ?_
  cases ownResult plan request with
  | ok other => simp [Except.toOption]
  | error failure => simp [Except.toOption]

/-- The outputs are those of different modules. -/
theorem nodup_ownOutputs (hmodules : (plan.requests.map ModuleRequest.module).Nodup) :
    ((ownOutputs plan).map ModuleOutput.module).Nodup := by
  have hown {request : ModuleRequest} {output : ModuleOutput}
      (h : (ownResult plan request).toOption = some output) : output.module = request.module := by
    cases hresult : ownResult plan request with
    | ok other =>
      rw [hresult] at h
      cases h
      exact module_of_ownResult hresult
    | error failure =>
      rw [hresult] at h
      cases h
  refine List.pairwise_map.mpr (List.pairwise_filterMap.mpr ?_)
  refine (List.pairwise_map.mp hmodules).imp fun hne output houtput output' houtput' heq => hne ?_
  rw [← hown houtput, ← hown houtput', heq]

/-- There is a result only when every task was collected. -/
theorem tasks_collected (hescaped : s.escaped = none) (hresult : s.result?.isSome = true) :
    ∀ {i : Nat} {t : Task}, s.tasks[i]? = some t → t = .collected := by
  intro i t htask
  rw [State.result?, hescaped] at hresult
  simp only at hresult
  split at hresult
  · rename_i hall
    have ht := List.all_eq_true.mp hall t (List.mem_of_getElem? htask)
    cases t with
    | collected => rfl
    | _ => cases ht
  · cases hresult

/-- What all tasks together have come to. -/
theorem Consistent.result_eq (h : Consistent plan s)
    {result : Except ExportFailure (List ModuleOutput)} (hresult : s.result? = some result) :
    result = match s.failure with
      | some failure => .error failure
      | none => .ok (sortOutputs s.outputs) := by
  rw [State.result?, h.escaped] at hresult
  simp only at hresult
  split at hresult
  · exact (Option.some.inj hresult).symm
  · cases hresult

/-- If every module has an output, the outputs are these, in order. -/
theorem Consistent.result_ok (h : Consistent plan s)
    (hmodules : (plan.requests.map ModuleRequest.module).Nodup)
    (hown : ∀ request ∈ plan.requests, ∃ output, ownResult plan request = .ok output)
    {result : Except ExportFailure (List ModuleOutput)} (hresult : s.result? = some result) :
    result = .ok (sortOutputs (ownOutputs plan)) := by
  have hcollected : ∀ {i : Nat} {t : Task}, s.tasks[i]? = some t → t = .collected :=
    tasks_collected h.escaped (Option.isSome_of_eq_some hresult)
  have haborted : s.aborted = false := by
    cases haborted : s.aborted with
    | false => rfl
    | true =>
      obtain ⟨failure, -, request, hrequest, hfailure⟩ := h.failed haborted
      obtain ⟨output, houtput⟩ := hown request hrequest
      rw [hfailure] at houtput
      cases houtput
  have hperm : s.outputs.Perm (ownOutputs plan) := by
    refine (List.perm_ext_iff_of_nodup h.distinct.of_map
      (nodup_ownOutputs hmodules).of_map).mpr fun output => ?_
    rw [mem_ownOutputs]
    constructor
    · intro houtput
      obtain ⟨i, request, -, hrequest, hrequestOwn⟩ := h.outputs output houtput
      exact ⟨request, List.mem_of_getElem? hrequest, hrequestOwn⟩
    · rintro ⟨request, hmem, houtput⟩
      obtain ⟨i, hrequest⟩ := List.getElem?_of_mem hmem
      have hi := (List.getElem?_eq_some_iff.mp hrequest).1
      rw [← h.length] at hi
      have htask := List.getElem?_eq_getElem hi
      rw [hcollected htask] at htask
      obtain ⟨found, hfound, hfoundOwn⟩ := (h.unfailed haborted).2 htask hrequest
      rw [houtput] at hfoundOwn
      cases hfoundOwn
      exact hfound
  rw [h.result_eq hresult, (h.unfailed haborted).1]
  exact congrArg Except.ok (mergeSort_eq_of_perm hperm fun a ha b hb hab =>
    List.inj_on_of_nodup_map h.distinct ha hb hab)

/-- If a module has none, the failure that is told is a module's own. -/
theorem Consistent.result_error (h : Consistent plan s)
    (hown : ∃ request ∈ plan.requests, ∃ failure, ownResult plan request = .error failure)
    {result : Except ExportFailure (List ModuleOutput)} (hresult : s.result? = some result) :
    ∃ request ∈ plan.requests, ∃ failure, ownResult plan request = .error failure ∧
      result = .error failure := by
  obtain ⟨request, hmem, failure, hfailure⟩ := hown
  have haborted : s.aborted = true := by
    cases haborted : s.aborted with
    | true => rfl
    | false =>
      obtain ⟨i, hrequest⟩ := List.getElem?_of_mem hmem
      have hi := (List.getElem?_eq_some_iff.mp hrequest).1
      rw [← h.length] at hi
      have htask := List.getElem?_eq_getElem hi
      rw [tasks_collected h.escaped (Option.isSome_of_eq_some hresult) htask] at htask
      obtain ⟨output, -, houtput⟩ := (h.unfailed haborted).2 htask hrequest
      rw [hfailure] at houtput
      cases houtput
  obtain ⟨told, htold, other, hother, hotherOwn⟩ := h.failed haborted
  refine ⟨other, hother, told, hotherOwn, ?_⟩
  rw [h.result_eq hresult, htold]

/-- One worker comes to all outputs if every module has one. -/
theorem sequential_ok (hsteady : Steady plan.source valid) (hstart : valid plan.start)
    (hown : ∀ request ∈ plan.requests, ∃ output, ownResult plan request = .ok output) :
    sequential plan = .ok (sortOutputs (ownOutputs plan)) := by
  obtain ⟨s', hall⟩ := exportAll_ok hsteady hstart hown hstart
  have hrun : Export.run plan.source plan.settings plan.requests plan.start =
      .ok (sortOutputs (ownOutputs plan)) s' := run_bind_ok hall
  rw [sequential, hrun]

/-- It comes to the first failure otherwise. -/
theorem sequential_error (hsteady : Steady plan.source valid) (hstart : valid plan.start)
    (hown : ∃ request ∈ plan.requests, ∃ failure, ownResult plan request = .error failure) :
    ∃ request ∈ plan.requests, ∃ failure, ownResult plan request = .error failure ∧
      sequential plan = .error failure := by
  obtain ⟨request, hmem, failure, s', hfailure, hall⟩ := exportAll_error hsteady hstart hown hstart
  refine ⟨request, hmem, failure, hfailure, ?_⟩
  have hrun : Export.run plan.source plan.settings plan.requests plan.start = .error failure s' :=
    run_bind_error hall
  rw [sequential, hrun]

/-- Outputs of different modules stand in the order of their modules. -/
theorem pairwise_sortOutputs {outputs : List ModuleOutput}
    (hnodup : (outputs.map ModuleOutput.module).Nodup) :
    (sortOutputs outputs).Pairwise fun a b => a.module < b.module :=
  pairwise_lt_mergeSort hnodup

/-- **A parallel run comes to what the sequential one comes to.** Take a source that answers the
same whenever it is asked and never wants the run to stop, requests for different modules, and
any number of workers. Every schedule ends: it is bounded, and can be continued to a result. If
every module's own export succeeds, every schedule's result are the outputs of the run of one
worker, in the order of modules. If some module's own export fails, and each that does as a run
fails, then every schedule's result is such a failure, and never the stop that it leads to. -/
theorem run_parallel (hsteady : Steady plan.source valid) (hstart : valid plan.start)
    (hmodules : (plan.requests.map ModuleRequest.module).Nodup) :
    (∃ bound, ∀ schedule s, follow? plan (.initial plan.requests) schedule = some s →
      schedule.length ≤ bound ∧ ∃ rest result, result? plan (schedule ++ rest) = some result) ∧
    ((∀ request ∈ plan.requests, ∃ output, ownResult plan request = .ok output) →
      ∃ outputs, (outputs.Pairwise fun a b => a.module < b.module) ∧
        result? { plan with workers := 1 } [] = some (.ok outputs) ∧
        ∀ schedule result, result? plan schedule = some result → result = .ok outputs) ∧
    ((∃ request ∈ plan.requests, ∃ failure, ownResult plan request = .error failure) →
      (∀ request ∈ plan.requests, ∀ failure, ownResult plan request = .error failure →
        failure.isRunFailure = true) →
      ∀ schedule result, result? plan schedule = some result →
        ∃ failure, result = .error failure ∧ failure.isRunFailure = true) := by
  have hfinal {schedule : List Action} {s : State}
      (hrun : ∀ request ∈ plan.requests, ∀ failure,
        ownResult plan request = .error failure → failure.isRunFailure = true)
      (hfollow : follow? plan (.initial plan.requests) schedule = some s) : Consistent plan s :=
    (consistent_initial plan).follow hsteady hstart hmodules hrun hfollow
  refine ⟨⟨work plan (.initial plan.requests), fun schedule s hfollow => ?_⟩, fun hown => ?_,
    fun hown hrun schedule result hresult => ?_⟩
  · obtain ⟨hbound, hlength⟩ := length_le_of_follow (consistent_initial plan).length hfollow
    refine ⟨by omega, ?_⟩
    unfold result?
    split
    · exact ⟨[], _, rfl⟩
    · rename_i hworkers
      simp only [Bool.or_eq_true, decide_eq_true_eq, not_or, not_le] at hworkers
      obtain ⟨rest, result, hrest⟩ := exists_result (by omega) hlength
      refine ⟨rest, result, ?_⟩
      rw [follow?_append, hfollow]
      exact hrest
  · refine ⟨sortOutputs (ownOutputs plan), pairwise_sortOutputs (nodup_ownOutputs hmodules), ?_,
      fun schedule result hresult => ?_⟩
    · exact congrArg some (sequential_ok hsteady hstart hown)
    · unfold result? at hresult
      split at hresult
      · cases hresult
        exact sequential_ok hsteady hstart hown
      · obtain ⟨s, hfollow, hs⟩ := Option.bind_eq_some_iff.mp hresult
        have hrun (request) (hmem : request ∈ plan.requests) (failure)
            (hfailure : ownResult plan request = .error failure) :
            failure.isRunFailure = true := by
          obtain ⟨output, houtput⟩ := hown request hmem
          rw [hfailure] at houtput
          cases houtput
        exact (hfinal hrun hfollow).result_ok hmodules hown hs
  · unfold result? at hresult
    split at hresult
    · cases hresult
      obtain ⟨request, hmem, failure, hfailure, hsequential⟩ :=
        sequential_error hsteady hstart hown
      exact ⟨failure, hsequential, hrun request hmem failure hfailure⟩
    · obtain ⟨s, hfollow, hs⟩ := Option.bind_eq_some_iff.mp hresult
      obtain ⟨request, hmem, failure, hfailure, hs⟩ := (hfinal hrun hfollow).result_error hown hs
      exact ⟨failure, hs, hrun request hmem failure hfailure⟩

/-- A function in each of two modules. -/
def twoModules : Catalog :=
  let f := Shape.ofFunction "f" (.name "int") [] false
  (({} : Catalog).add "m" f none).add "n" f none

/-- Two workers on requests for modules of the catalog. -/
def twoWorkers (requests : List ModuleRequest) : Plan Catalog :=
  { source := Catalog.source, start := twoModules, settings := plainSettings, requests,
    workers := 2 }

theorem steady_twoWorkers (requests : List ModuleRequest) :
    Steady (twoWorkers requests).source fun c => c.tables = twoModules.tables :=
  steady_catalog twoModules.tables

/-- What a module of the catalog comes to by itself. -/
theorem ownResult_twoModules (requests : List ModuleRequest) {module : String}
    (h : resolves plainSettings module twoModules [.name "f"]
      (declaresOnly plainSettings module 1 "f") = true) :
    ∃ output, ownResult (twoWorkers requests) ⟨module, [.name "f"]⟩ = .ok output := by
  obtain ⟨s, hs, honly⟩ := exists_of_resolves h
  obtain ⟨output, c, hrun, -⟩ := exists_of_declaresOnly (by simp) hs honly
  rcases exportModule_elsewhere (steady_twoWorkers requests) rfl
    ⟨module, [.name "f"]⟩ (s := twoModules) rfl with ⟨output, -, hown, -⟩ | ⟨failure, c', -, hfails⟩
  · exact ⟨output, hown⟩
  · cases hrun.symm.trans hfails

/-- A module that the catalog does not have cannot be listed. -/
theorem ownResult_unknown (requests : List ModuleRequest) : ∃ failure,
    ownResult (twoWorkers requests) ⟨"x", []⟩ = .error failure ∧
      failure.isRunFailure = true := by
  have hfails : exportModule Catalog.source plainSettings ⟨"x", []⟩ twoModules =
      .error (.listing "x" { cause := .unknownModule "x", module := "x", query := none })
        twoModules := rfl
  rcases exportModule_elsewhere (steady_twoWorkers requests) rfl
    ⟨"x", []⟩ (s := twoModules) rfl with ⟨output, c', -, -, hrun⟩ | ⟨failure, c', hown, hrun⟩
  · cases hrun.symm.trans hfails
  · cases hrun.symm.trans hfails
    exact ⟨_, hown, rfl⟩

/-- Two modules by two workers: some schedule gives what one worker gives. With a module that does
not exist in place of one of them, some schedule tells that. -/
theorem run_parallel_twoModules :
    (∃ schedule outputs,
      result? (twoWorkers [⟨"n", [.name "f"]⟩, ⟨"m", [.name "f"]⟩]) schedule =
          some (.ok outputs) ∧
        result? { twoWorkers [⟨"n", [.name "f"]⟩, ⟨"m", [.name "f"]⟩] with workers := 1 } [] =
          some (.ok outputs)) ∧
    ∃ schedule failure,
      result? (twoWorkers [⟨"n", [.name "f"]⟩, ⟨"x", []⟩]) schedule = some (.error failure) ∧
        failure.isRunFailure = true := by
  have hm : resolves plainSettings "m" twoModules [.name "f"]
      (declaresOnly plainSettings "m" 1 "f") = true := by decide +kernel
  have hn : resolves plainSettings "n" twoModules [.name "f"]
      (declaresOnly plainSettings "n" 1 "f") = true := by decide +kernel
  refine ⟨?_, ?_⟩
  · obtain ⟨⟨_, hends⟩, hok, -⟩ := run_parallel (steady_twoWorkers
      [⟨"n", [.name "f"]⟩, ⟨"m", [.name "f"]⟩]) rfl (by decide)
    obtain ⟨-, schedule, result, hresult⟩ := hends [] _ rfl
    obtain ⟨outputs, -, hone, hall⟩ := hok (by
      simp only [twoWorkers, List.forall_mem_cons, List.not_mem_nil, false_implies, implies_true,
        and_true]
      exact ⟨ownResult_twoModules _ hn, ownResult_twoModules _ hm⟩)
    obtain rfl := hall _ _ hresult
    exact ⟨_, outputs, hresult, hone⟩
  · obtain ⟨⟨_, hends⟩, -, herror⟩ := run_parallel (steady_twoWorkers
      [⟨"n", [.name "f"]⟩, ⟨"x", []⟩]) rfl (by decide)
    obtain ⟨-, schedule, result, hresult⟩ := hends [] _ rfl
    obtain ⟨output, houtput⟩ := ownResult_twoModules [⟨"n", [.name "f"]⟩, ⟨"x", []⟩] hn
    obtain ⟨unknown, hunknown, hrunFailure⟩ :=
      ownResult_unknown [⟨"n", [.name "f"]⟩, ⟨"x", []⟩]
    obtain ⟨failure, rfl, hfailure⟩ := herror
      ⟨⟨"x", []⟩, List.mem_cons_of_mem _ List.mem_cons_self, unknown, hunknown⟩
      (by
        intro request hmem failure hfailure
        rcases List.mem_cons.mp hmem with rfl | hmem
        · rw [houtput] at hfailure
          cases hfailure
        · obtain rfl := List.mem_singleton.mp hmem
          cases hunknown.symm.trans hfailure
          exact hrunFailure) schedule result hresult
    exact ⟨schedule, failure, hresult, hfailure⟩

end Schedule

end NativeTypes
