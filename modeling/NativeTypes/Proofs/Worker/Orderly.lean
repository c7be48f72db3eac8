/-
NativeTypes.Proofs.Worker.Orderly — a worker performs what it accepts, once and
in order.

Requests are numbered as they are accepted, and the queue is first in, first
out. So at every moment some number of requests has left the queue for good
(`passed`), and these were begun or cancelled, while the later ones still stand
in the queue in their order, with at most the stop mark behind them. `Orderly`
says this together with what each phase of the thread has come to. It holds of
a new worker and is kept by every step (`Orderly.step`), so it holds after any
steps of any clients and of the thread (`Reached.orderly`).

A label says who takes the next step, and a run is any row of labels, so
nothing is assumed about who is scheduled when. The difficult moment is between
taking a request from the queue and beginning it: a client may cancel it then,
while it is in no list at all. It is `held` by the phase of the thread, and
counts as pending until the thread has looked whether it was cancelled.

What the service answered is not recorded step by step. `Served` says of the
state of the service and of the outcomes that they are those of performing the
begun requests one after the other, from the state that was built. That answers
do not depend on the interleaving is then no separate statement.

* `Reached.in_order` — requests are begun in the order of acceptance, each at
  most once and none out of turn, their answers are those of one run over the
  service, nothing stands behind the stop mark, and the service is given back
  at most once, when every accepted request has ended.
* `Reached.all_done_iff` — once the thread has ended, an accepted request is
  left without outcome only if building the service failed. That does happen
  (`exists_forsaken`): while the service is built requests are accepted, and a
  build that fails turns none of them away.
-/
import Mathlib.Data.List.Nodup
import NativeTypes.Worker.Machine

namespace NativeTypes.Worker

variable {σ ρ β ε : Type} {service : Service σ ρ β ε} {s s' : State σ ρ β ε}

/-! ## 1. Steps -/

/-- What one step can do. -/
inductive Stepped (service : Service σ ρ β ε) (s : State σ ρ β ε) : State σ ρ β ε → Prop
  | stayed : Stepped service s s
  | started : s.started = false → Stepped service s { s with started := true, phase := .building }
  | accepted (r : ρ) : isRunning s = true → Stepped service s
      { s with requests := s.requests ++ [r], queue := s.queue ++ [some s.requests.length] }
  | marked : s.started = true → s.stopped = false →
      Stepped service s { s with stopped := true, queue := s.queue ++ [none] }
  | stopped : Stepped service s { s with stopped := true }
  | cancelled {n : Nat} : n < s.requests.length → s.phase ≠ .performing n →
      isDone s n = false →
      Stepped service s { s with outcomes := s.outcomes.put n .cancelled }
  | built {inner : σ} : s.phase = .building → service.build = .ok inner →
      Stepped service s { s with phase := .serving, inner := some inner, ready := some (.ok ()) }
  | failed {fault : ε} : s.phase = .building → service.build = .error fault →
      Stepped service s { s with phase := .failing, stopped := true }
  | told : s.phase = .failing → Stepped service s (fail service s)
  | tookMark {rest : List (Option Nat)} : s.phase = .serving → s.queue = none :: rest →
      Stepped service s { s with phase := .draining, queue := rest }
  | took {n : Nat} {rest : List (Option Nat)} : s.phase = .serving → s.queue = some n :: rest →
      Stepped service s { s with phase := .taking n, queue := rest }
  | skipped {n : Nat} : s.phase = .taking n → isDone s n = true →
      Stepped service s { s with phase := .serving }
  | begun {n : Nat} : s.phase = .taking n → isDone s n = false →
      Stepped service s { s with phase := .performing n }
  | performed {n : Nat} : s.phase = .performing n → Stepped service s (perform service s n)
  | drained : s.phase = .draining → Stepped service s (drain s)

/-- A step that can be taken is one of these. Every invariant is shown by cases on them. -/
theorem stepped_of_step {l : Label ρ} (hstep : step service s l = some s') :
    Stepped service s s' := by
  cases l with
  | start =>
    cases hstep
    rw [start]
    split
    · exact .stayed
    · rename_i hstarted
      exact .started (Bool.not_eq_true _ ▸ hstarted)
  | submit r =>
    cases hstep
    rw [submit?]
    split
    · rename_i hrunning
      exact .accepted r hrunning
    · exact .stayed
  | stop =>
    cases hstep
    rw [stop]
    split
    · rename_i hopen
      obtain ⟨hstarted, hstopped⟩ := Bool.and_eq_true_iff.mp hopen
      exact .marked hstarted (Bool.not_eq_true' _ ▸ hstopped)
    · exact .stopped
  | cancel n =>
    cases hstep
    rw [cancel]
    split
    · rename_i hopen
      simp only [Bool.and_eq_true, decide_eq_true_eq, Bool.not_eq_true'] at hopen
      exact .cancelled hopen.1.1 hopen.1.2 hopen.2
    · exact .stayed
  | advance =>
    rw [step, advance?] at hstep
    split at hstep
    · cases hstep
    · cases hstep
    · rename_i hphase
      cases hstep
      rw [build]
      split
      · rename_i hbuild
        exact .built hphase hbuild
      · rename_i hbuild
        exact .failed hphase hbuild
    · rename_i hphase
      cases hstep
      exact .told hphase
    · rename_i hphase
      rw [take?] at hstep
      split at hstep
      · cases hstep
      · rename_i hqueue
        cases hstep
        exact .tookMark hphase hqueue
      · rename_i hqueue
        cases hstep
        exact .took hphase hqueue
    · rename_i n hphase
      cases hstep
      rw [enter]
      split
      · rename_i hdone
        exact .skipped hphase hdone
      · rename_i hdone
        exact .begun hphase (Bool.not_eq_true _ ▸ hdone)
    · rename_i hphase
      cases hstep
      exact .performed hphase
    · rename_i hphase
      cases hstep
      exact .drained hphase

/-! ## 2. What is said of a state -/

/-- The request was cancelled before it was begun. -/
def isCancelled (s : State σ ρ β ε) (n : Nat) : Bool :=
  match s.outcomes.get? n with
  | some .cancelled => true
  | _ => false

/-- The requests that were begun, in the order of beginning. -/
def begun (s : State σ ρ β ε) : List Nat :=
  s.performed ++ match s.phase with
    | .performing n => [n]
    | _ => []

/-- The state of the service after some requests were performed on it, one after the other. -/
def replay (service : Service σ ρ β ε) (requests : List ρ) (inner : σ) (numbers : List Nat) : σ :=
  numbers.foldl (fun inner n => (requests[n]?).elim inner fun r => (service.perform r inner).2) inner

/-- The request that is out of the queue and not begun. -/
def held : Phase → List Nat
  | .taking n => [n]
  | _ => []

/-- The numbers of the accepted requests from a place on, as they stand in the queue. -/
def pending (place : Nat) (s : State σ ρ β ε) : List (Option Nat) :=
  (List.range' place (s.requests.length - place)).map some

/-- The service was built, and its state and its answers are those of one run over it in which the
performed requests follow each other. -/
def Served (service : Service σ ρ β ε) (s : State σ ρ β ε) : Prop :=
  ∃ inner, service.build = .ok inner ∧
    s.inner = some (replay service s.requests inner s.performed) ∧
    ∀ before n after, s.performed = before ++ n :: after → ∃ r, s.requests[n]? = some r ∧
      s.outcomes.get? n =
        some (.answered (service.perform r (replay service s.requests inner before)).1)

/-- What each phase has come to. -/
def Come (service : Service σ ρ β ε) (s : State σ ρ β ε) (passed : Nat) : Phase → Prop
  | .idle => s.started = false ∧ s.requests = [] ∧ s.closes = 0
  | .building => s.started = true ∧ passed = 0 ∧ s.closes = 0
  | .failing => s.stopped = true ∧ s.started = true ∧ passed = 0 ∧ s.closes = 0 ∧
      ∃ fault, service.build = .error fault
  | .serving | .taking _ | .performing _ => s.started = true ∧ s.closes = 0 ∧ Served service s
  | .draining => s.stopped = true ∧ s.started = true ∧ s.closes = 0 ∧ s.queue = [] ∧
      passed = s.requests.length ∧ Served service s
  | .ended => s.stopped = true ∧ s.started = true ∧
      (s.closes = 1 ∧ passed = s.requests.length ∧ Served service s ∨
        s.closes = 0 ∧ passed = 0 ∧ ∃ fault, service.build = .error fault)

/-- A worker that took and decided so many requests: these were begun in their order or cancelled,
and the others stand in the queue in theirs, with the stop mark behind them or none. -/
structure Orderly (service : Service σ ρ β ε) (s : State σ ρ β ε) (passed : Nat) : Prop where
  le : passed ≤ s.requests.length
  queue : ∃ mark, (held s.phase).map some ++ s.queue = pending passed s ++ mark ∧
    (mark = [] ∨ mark = [none] ∧ s.stopped = true)
  begun : begun s = (List.range passed).filter fun n => !isCancelled s n
  inRange : ∀ n o, s.outcomes.get? n = some o → n < s.requests.length
  answered : ∀ n answer, s.outcomes.get? n = some (.answered answer) → n ∈ s.performed
  notTurnedAway : ∀ n, s.outcomes.get? n ≠ some .turnedAway
  come : Come service s passed s.phase

/-- A request is cancelled if that is its outcome. -/
theorem isCancelled_iff {n : Nat} :
    isCancelled s n = true ↔ s.outcomes.get? n = some .cancelled := by
  unfold isCancelled
  split
  · simp [*]
  · rename_i hnot
    simp only [Bool.false_eq_true, false_iff]
    exact hnot

/-- And done if it has any. -/
theorem isDone_iff {n : Nat} : isDone s n = true ↔ ∃ o, s.outcomes.get? n = some o :=
  Option.isSome_iff_exists

/-- A request that was not accepted yet is none of those that are replayed. -/
theorem replay_append {requests : List ρ} {numbers : List Nat}
    (hnumbers : ∀ n ∈ numbers, n < requests.length) (r : ρ) (inner : σ) :
    replay service (requests ++ [r]) inner numbers = replay service requests inner numbers := by
  induction numbers generalizing inner with
  | nil => rfl
  | cons n rest ih =>
    simp only [replay, List.foldl_cons] at ih ⊢
    rw [List.getElem?_append_left (hnumbers n List.mem_cons_self)]
    exact ih (fun m hm => hnumbers m (List.mem_cons_of_mem _ hm)) _

/-- One request more is performed on what the others left. -/
theorem replay_concat (requests : List ρ) (inner : σ) (numbers : List Nat) (n : Nat) :
    replay service requests inner (numbers ++ [n]) =
      (requests[n]?).elim (replay service requests inner numbers)
        fun r => (service.perform r (replay service requests inner numbers)).2 := by
  simp [replay]

/-- What was served stays so when another request is accepted. -/
theorem Served.accepted (hserved : Served service s)
    (hin : ∀ n ∈ s.performed, n < s.requests.length)
    (r : ρ) : Served service { s with requests := s.requests ++ [r]
                                      queue := s.queue ++ [some s.requests.length] } := by
  obtain ⟨inner, hbuild, hinner, hanswers⟩ := hserved
  refine ⟨inner, hbuild, ?_, fun before n after hsplit => ?_⟩
  · simp only [hinner, replay_append hin]
  · obtain ⟨r₀, hr, hanswer⟩ := hanswers before n after hsplit
    have hbefore : ∀ m ∈ before, m < s.requests.length := fun m hm =>
      hin m (hsplit ▸ List.mem_append_left _ hm)
    refine ⟨r₀, ?_, ?_⟩
    · rw [List.getElem?_append_left (List.getElem?_eq_some_iff.mp hr).1, hr]
    · simp only [hanswer, replay_append hbefore]

/-- The next request stands first among the pending ones. -/
theorem pending_of_lt {place : Nat} (hlt : place < s.requests.length) :
    pending place s = some place :: pending (place + 1) s := by
  rw [pending, pending, ← List.map_cons, ← List.range'_succ]
  congr 2
  omega

theorem perform_eq {inner : σ} {n : Nat} {r : ρ} (hinner : s.inner = some inner)
    (hr : s.requests[n]? = some r) :
    perform service s n =
      { s with phase := .serving, inner := some (service.perform r inner).2
               outcomes := s.outcomes.put n (.answered (service.perform r inner).1)
               performed := s.performed ++ [n] } := by
  simp [perform, hinner, hr]

/-- What was served stays so when a request is cancelled that was not performed. -/
theorem Served.cancelled (hserved : Served service s) {n : Nat} (hnew : n ∉ s.performed) :
    Served service { s with outcomes := s.outcomes.put n .cancelled } := by
  obtain ⟨inner, hbuild, hinner, hanswers⟩ := hserved
  refine ⟨inner, hbuild, hinner, fun before m after hsplit => ?_⟩
  obtain ⟨r, hr, hanswer⟩ := hanswers before m after hsplit
  have hm : n ≠ m := fun heq =>
    hnew (hsplit ▸ heq ▸ List.mem_append_right _ List.mem_cons_self)
  exact ⟨r, hr, by rw [Assoc.get?_put, if_neg hm]; exact hanswer⟩

/-- What was served stays so when another request is performed. -/
theorem Served.performed (hserved : Served service s) {n : Nat} (hlt : n < s.requests.length)
    (hnew : n ∉ s.performed) : Served service (perform service s n) := by
  obtain ⟨inner, hbuild, hinner, hanswers⟩ := hserved
  obtain ⟨r, hr⟩ : ∃ r, s.requests[n]? = some r := ⟨_, List.getElem?_eq_getElem hlt⟩
  rw [perform_eq hinner hr]
  refine ⟨inner, hbuild, ?_, fun before m after hsplit => ?_⟩
  · simp only [replay_concat, hr, Option.elim_some]
  · rcases List.eq_nil_or_concat after with rfl | ⟨after, last, rfl⟩
    · -- the request that was performed last
      obtain ⟨rfl, hlast⟩ := List.append_inj' hsplit rfl
      obtain rfl : n = m := by simpa using hlast
      exact ⟨r, hr, by rw [Assoc.get?_put, if_pos rfl]⟩
    · have hbefore : s.performed = before ++ m :: after := by
        rw [List.concat_eq_append, ← List.cons_append, ← List.append_assoc] at hsplit
        exact (List.append_inj' hsplit rfl).1
      obtain ⟨r', hr', hanswer⟩ := hanswers before m after hbefore
      have hm : n ≠ m := fun heq =>
        hnew (hbefore ▸ heq ▸ List.mem_append_right _ List.mem_cons_self)
      exact ⟨r', hr', by rw [Assoc.get?_put, if_neg hm]; exact hanswer⟩

namespace Orderly

variable {passed : Nat} (h : Orderly service s passed)

include h

/-- The requests that were begun are those that were decided and not cancelled. -/
theorem mem_begun_iff {n : Nat} :
    n ∈ Worker.begun s ↔ n < passed ∧ isCancelled s n = false := by
  simp [h.begun]

/-- None is begun twice. -/
theorem nodup_begun : (Worker.begun s).Nodup := by
  rw [h.begun]
  exact List.nodup_range.filter _

theorem lt_of_performed {n : Nat} (hn : n ∈ s.performed) : n < passed :=
  (h.mem_begun_iff.mp (List.mem_append_left _ hn)).1

/-- A request that was decided was performed or cancelled, or is being performed. -/
theorem decided {n : Nat} (hn : n < passed) :
    isCancelled s n = true ∨ n ∈ s.performed ∨ s.phase = .performing n := by
  cases hcancelled : isCancelled s n with
  | true => exact .inl rfl
  | false =>
    refine .inr ?_
    have hmem := h.mem_begun_iff.mpr ⟨hn, hcancelled⟩
    rcases List.mem_append.mp hmem with hmem | hmem
    · exact .inl hmem
    · split at hmem
      · rename_i hphase
        rw [List.mem_singleton] at hmem
        exact .inr (hmem ▸ hphase)
      · cases hmem

/-- What is being performed has no outcome yet. -/
theorem not_isDone {n : Nat} (hphase : s.phase = .performing n) : isDone s n = false := by
  have hbegun : Worker.begun s = s.performed ++ [n] := by simp [Worker.begun, hphase]
  have hmem := h.mem_begun_iff.mp (hbegun ▸ List.mem_append_right _ (List.mem_singleton_self n))
  have hnot : n ∉ s.performed := by
    have hnodup := h.nodup_begun
    rw [hbegun, List.nodup_append] at hnodup
    exact fun hn => hnodup.2.2 n hn n (List.mem_singleton_self n) rfl
  cases hdone : isDone s n with
  | false => rfl
  | true =>
    obtain ⟨o, ho⟩ := isDone_iff.mp hdone
    cases o with
    | answered answer => exact absurd (h.answered n answer ho) hnot
    | turnedAway => exact absurd ho (h.notTurnedAway n)
    | cancelled => exact absurd (isCancelled_iff.mpr ho) (by simp [hmem.2])

/-- Until the first request is decided nothing was performed. -/
theorem performed_eq_nil (hpassed : passed = 0) : s.performed = [] := by
  have hbegun := h.begun
  rw [hpassed, Worker.begun, List.range_zero, List.filter_nil] at hbegun
  exact (List.append_eq_nil_iff.mp hbegun).1

theorem served_of_performed {n : Nat} (hn : n ∈ s.performed) : Served service s := by
  have hpassed : passed ≠ 0 := Nat.ne_of_gt (Nat.zero_lt_of_lt (h.lt_of_performed hn))
  have hcome := h.come
  cases hphase : s.phase <;> simp only [hphase, Come] at hcome
  case idle =>
    have hle := h.le
    rw [hcome.2.1] at hle
    exact absurd (Nat.le_zero.mp hle) hpassed
  case building => exact absurd hcome.2.1 hpassed
  case failing => exact absurd hcome.2.2.1 hpassed
  case serving => exact hcome.2.2
  case taking => exact hcome.2.2
  case performing => exact hcome.2.2
  case draining => exact hcome.2.2.2.2.2
  case ended =>
    obtain ⟨-, -, ⟨-, -, hserved⟩ | ⟨-, hnone, -⟩⟩ := hcome
    · exact hserved
    · exact absurd hnone hpassed

theorem isDone_of_performed {n : Nat} (hn : n ∈ s.performed) : isDone s n = true := by
  obtain ⟨_, -, -, hanswers⟩ := h.served_of_performed hn
  obtain ⟨before, after, hsplit⟩ := List.append_of_mem hn
  obtain ⟨_, -, hanswer⟩ := hanswers before n after hsplit
  exact isDone_iff.mpr ⟨_, hanswer⟩

/-- A request without outcome that is not being performed was not decided yet. -/
theorem passed_le {n : Nat} (hphase : s.phase ≠ .performing n) (hdone : isDone s n = false) :
    passed ≤ n := by
  by_contra hlt
  rcases h.decided (Nat.lt_of_not_le hlt) with hcancelled | hperformed | hperforming
  · rw [isDone_iff.mpr ⟨_, isCancelled_iff.mp hcancelled⟩] at hdone
    cases hdone
  · rw [h.isDone_of_performed hperformed] at hdone
    cases hdone
  · exact hphase hperforming

/-- Only accepted requests have outcomes, also after one of them got its own. -/
theorem lt_of_put {m n : Nat} {o o' : Outcome β} (hlt : n < s.requests.length)
    (ho : (s.outcomes.put n o).get? m = some o') : m < s.requests.length := by
  rw [Assoc.get?_put] at ho
  split at ho
  · rename_i hm
    exact hm ▸ hlt
  · exact h.inRange m o' ho

theorem not_turnedAway_of_put {m n : Nat} {o : Outcome β} (hnot : o ≠ .turnedAway) :
    (s.outcomes.put n o).get? m ≠ some .turnedAway := by
  rw [Assoc.get?_put]
  split
  · exact fun ho => hnot (Option.some.inj ho)
  · exact h.notTurnedAway m

/-- A worker that still accepts requests has no stop mark in its queue. -/
theorem queue_of_open (hopen : s.stopped = false) :
    (held s.phase).map some ++ s.queue = pending passed s := by
  obtain ⟨mark, hqueue, rfl | ⟨-, hstopped⟩⟩ := h.queue
  · rw [hqueue, List.append_nil]
  · rw [hopen] at hstopped
    cases hstopped

/-- The request that is out of the queue and not begun is the next one that is decided. -/
theorem of_taking {n : Nat} (hphase : s.phase = .taking n) :
    n = passed ∧ passed < s.requests.length ∧
      ∃ mark, s.queue = pending (passed + 1) s ++ mark ∧
        (mark = [] ∨ mark = [none] ∧ s.stopped = true) := by
  obtain ⟨mark, hqueue, hmark⟩ := h.queue
  simp only [hphase, held, List.map_cons, List.map_nil, List.singleton_append] at hqueue
  rcases Nat.eq_or_lt_of_le h.le with hall | hlt
  · -- there is no request left: the first of the queue would be the stop mark
    simp only [pending, hall, Nat.sub_self, List.range'_zero, List.map_nil, List.nil_append]
      at hqueue
    rcases hmark with rfl | ⟨rfl, -⟩ <;> simp at hqueue
  · rw [pending_of_lt hlt, List.cons_append, List.cons.injEq, Option.some.injEq] at hqueue
    exact ⟨hqueue.1, hlt, mark, hqueue.2, hmark⟩

/-! ### Steps of clients

A client may start the worker, hand in a request, stop the worker or cancel a request, at any
moment. Each step leaves what was decided as it was. -/

theorem started (hstarted : s.started = false) :
    Orderly service { s with started := true, phase := .building } passed := by
  have hcome := h.come
  cases hphase : s.phase with
  | idle =>
    rw [hphase] at hcome
    obtain ⟨-, hrequests, hcloses⟩ := hcome
    have hpassed : passed = 0 := by
      have := h.le
      rw [hrequests] at this
      exact Nat.le_zero.mp this
    have hbegun := h.begun
    have hqueue := h.queue
    rw [Worker.begun, hphase] at hbegun
    rw [hphase] at hqueue
    exact ⟨h.le, hqueue, hbegun, h.inRange, h.answered, h.notTurnedAway, rfl, hpassed, hcloses⟩
  | _ =>
    simp [hphase, Come, hstarted] at hcome

theorem accepted (hrunning : isRunning s = true) (r : ρ) :
    Orderly service { s with requests := s.requests ++ [r]
                             queue := s.queue ++ [some s.requests.length] } passed := by
  simp only [isRunning, Bool.and_eq_true, Bool.not_eq_true'] at hrunning
  obtain ⟨⟨hstarted, hopen⟩, -⟩ := hrunning
  have hlast : (s.requests ++ [r]).length = s.requests.length + 1 := by simp
  refine ⟨?_, ⟨[], ?_, .inl rfl⟩, h.begun, ?_, h.answered, h.notTurnedAway, ?_⟩
  · exact Nat.le_trans h.le (hlast ▸ Nat.le_succ _)
  · rw [List.append_nil, ← List.append_assoc, h.queue_of_open hopen, pending, pending, hlast,
      Nat.succ_sub h.le, List.range'_1_concat, List.map_append, Nat.add_sub_cancel' h.le]
    rfl
  · intro n o ho
    exact Nat.lt_trans (h.inRange n o ho) (hlast ▸ Nat.lt_succ_self _)
  · have hserved (hs : Served service s) : Served service
        { s with requests := s.requests ++ [r]
                 queue := s.queue ++ [some s.requests.length] } :=
      hs.accepted (fun n hn => Nat.lt_of_lt_of_le (h.lt_of_performed hn) h.le) r
    have hcome := h.come
    cases hphase : s.phase <;> simp only [hphase, Come, hstarted, hopen] at hcome ⊢
    all_goals simp_all

/-- The stop mark is put behind all that was accepted. -/
theorem marked (hstarted : s.started = true) (hopen : s.stopped = false) :
    Orderly service { s with stopped := true, queue := s.queue ++ [none] } passed := by
  refine ⟨h.le, ⟨[none], ?_, .inr ⟨rfl, rfl⟩⟩, h.begun, h.inRange, h.answered, h.notTurnedAway, ?_⟩
  · rw [← List.append_assoc, h.queue_of_open hopen]
    rfl
  · have hcome := h.come
    cases hphase : s.phase <;> simp only [hphase, Come, hstarted, hopen] at hcome ⊢
    all_goals simp_all [Served]

/-- A stop without a mark, of a worker that was not started or was stopped before. -/
theorem stopped : Orderly service { s with stopped := true } passed := by
  obtain ⟨mark, hqueue, hmark⟩ := h.queue
  refine ⟨h.le, ⟨mark, hqueue, hmark.imp_right fun hm => ⟨hm.1, rfl⟩⟩, h.begun, h.inRange,
    h.answered, h.notTurnedAway, ?_⟩
  have hcome := h.come
  cases hphase : s.phase <;> rw [hphase] at hcome
  case failing => exact ⟨rfl, hcome.2⟩
  case draining => exact ⟨rfl, hcome.2⟩
  case ended => exact ⟨rfl, hcome.2⟩
  all_goals exact hcome

/-- A request that was not begun is cancelled. It stays where it is. -/
theorem cancelled {n : Nat} (hlt : n < s.requests.length) (hphase : s.phase ≠ .performing n)
    (hdone : isDone s n = false) :
    Orderly service { s with outcomes := s.outcomes.put n .cancelled } passed := by
  have hpassed := h.passed_le hphase hdone
  refine ⟨h.le, h.queue, ?_, ?_, ?_, ?_, ?_⟩
  · -- the decided requests are as they were: this one is not among them
    refine h.begun.trans (List.filter_congr fun m hm => ?_)
    have hm : n ≠ m := by
      rw [List.mem_range] at hm
      omega
    simp only [isCancelled, Assoc.get?_put, if_neg hm]
  · exact fun _ _ => h.lt_of_put hlt
  · intro m answer ho
    rw [Assoc.get?_put] at ho
    split at ho
    · cases ho
    · exact h.answered m answer ho
  · exact fun _ => h.not_turnedAway_of_put nofun
  · have hserved (hs : Served service s) :
        Served service { s with outcomes := s.outcomes.put n .cancelled } :=
      hs.cancelled fun hn => Nat.not_lt.mpr hpassed (h.lt_of_performed hn)
    have hcome := h.come
    cases hp : s.phase <;> simp only [hp, Come] at hcome ⊢
    case ended =>
      exact ⟨hcome.1, hcome.2.1,
        hcome.2.2.imp_left fun hclosed => ⟨hclosed.1, hclosed.2.1, hserved hclosed.2.2⟩⟩
    all_goals simp_all

/-! ### Steps of the thread

The thread builds the service, takes requests one by one, and gives the service back behind the
mark. -/

/-- The service was built, and no request was decided. -/
theorem built {inner : σ} (hphase : s.phase = .building) (hbuild : service.build = .ok inner) :
    Orderly service { s with phase := .serving, inner := some inner, ready := some (.ok ()) }
      passed := by
  have hcome := h.come
  have hqueue := h.queue
  have hbegun := h.begun
  simp only [hphase, Come, Worker.begun] at hcome hqueue hbegun
  refine ⟨h.le, hqueue, hbegun, h.inRange, h.answered, h.notTurnedAway, hcome.1, hcome.2.2,
    inner, hbuild, ?_, ?_⟩
  · rw [h.performed_eq_nil hcome.2.1]
    rfl
  · intro before n after hsplit
    simp [h.performed_eq_nil hcome.2.1] at hsplit

theorem failed {fault : ε} (hphase : s.phase = .building) (hbuild : service.build = .error fault) :
    Orderly service { s with phase := .failing, stopped := true } passed := by
  have hcome := h.come
  have hbegun := h.begun
  obtain ⟨mark, hqueue, hmark⟩ := h.queue
  simp only [hphase, Come, Worker.begun] at hcome hqueue hbegun
  exact ⟨h.le, ⟨mark, hqueue, hmark.imp_right fun hm => ⟨hm.1, rfl⟩⟩, hbegun, h.inRange,
    h.answered, h.notTurnedAway, rfl, hcome.1, hcome.2.1, hcome.2.2, fault, hbuild⟩

theorem told (hphase : s.phase = .failing) : Orderly service (fail service s) passed := by
  have hcome := h.come
  have hqueue := h.queue
  have hbegun := h.begun
  simp only [hphase, Come, Worker.begun] at hcome hqueue hbegun
  obtain ⟨hstopped, hstarted, hpassed, hcloses, hfault⟩ := hcome
  exact ⟨h.le, hqueue, hbegun, h.inRange, h.answered, h.notTurnedAway, hstopped, hstarted,
    .inr ⟨hcloses, hpassed, hfault⟩⟩

/-- Nothing stands behind the mark. -/
theorem tookMark {rest : List (Option Nat)} (hphase : s.phase = .serving)
    (hfirst : s.queue = none :: rest) :
    Orderly service { s with phase := .draining, queue := rest } passed := by
  have hcome := h.come
  have hbegun := h.begun
  obtain ⟨mark, hqueue, hmark⟩ := h.queue
  simp only [hphase, Come, Worker.begun, held, hfirst, List.map_nil, List.nil_append]
    at hcome hqueue hbegun
  -- no request is left, since the next one would stand in front of the mark
  have hpassed : passed = s.requests.length := by
    refine Nat.le_antisymm h.le (Nat.le_of_not_lt fun hlt => ?_)
    rw [pending_of_lt hlt] at hqueue
    cases hqueue
  have hnone : pending passed s = [] := by simp [pending, hpassed]
  rw [hnone, List.nil_append] at hqueue
  rcases hmark with rfl | ⟨rfl, hstopped⟩
  · cases hqueue
  · obtain rfl : rest = [] := by simpa using hqueue
    refine ⟨h.le, ⟨[], ?_, .inl rfl⟩, hbegun, h.inRange, h.answered, h.notTurnedAway, hstopped,
      hcome.1, hcome.2.1, rfl, hpassed, hcome.2.2⟩
    simp only [held, List.map_nil, List.append_nil]
    exact hnone.symm

/-- The first of the pending requests is held. -/
theorem took {n : Nat} {rest : List (Option Nat)} (hphase : s.phase = .serving)
    (hfirst : s.queue = some n :: rest) :
    Orderly service { s with phase := .taking n, queue := rest } passed := by
  have hcome := h.come
  have hbegun := h.begun
  obtain ⟨mark, hqueue, hmark⟩ := h.queue
  simp only [hphase, Come, Worker.begun, held, hfirst] at hcome hqueue hbegun
  exact ⟨h.le, ⟨mark, hqueue, hmark⟩, hbegun, h.inRange, h.answered, h.notTurnedAway, hcome⟩

/-- What stands in the queue was not decided before: it is done only if it was cancelled. -/
theorem isCancelled_of_passed_le {n : Nat} (hn : passed ≤ n) :
    isCancelled s n = isDone s n := by
  cases hdone : isDone s n with
  | false =>
    cases hcancelled : isCancelled s n with
    | false => rfl
    | true =>
      rw [isDone_iff.mpr ⟨_, isCancelled_iff.mp hcancelled⟩] at hdone
      cases hdone
  | true =>
    obtain ⟨o, ho⟩ := isDone_iff.mp hdone
    cases o with
    | cancelled => exact isCancelled_iff.mpr ho
    | turnedAway => exact absurd ho (h.notTurnedAway n)
    | answered answer =>
      have := h.lt_of_performed (h.answered n answer ho)
      omega

/-- It was cancelled meanwhile, and counts as decided. -/
theorem skipped {n : Nat} (hphase : s.phase = .taking n) (hdone : isDone s n = true) :
    Orderly service { s with phase := .serving } (passed + 1) := by
  have hcome := h.come
  have hbegun := h.begun
  obtain ⟨rfl, hlt, hqueue⟩ := h.of_taking hphase
  simp only [hphase, Come, Worker.begun] at hcome hbegun
  refine ⟨hlt, hqueue, ?_, h.inRange, h.answered, h.notTurnedAway, hcome⟩
  have hcancelled : isCancelled s n = true :=
    (h.isCancelled_of_passed_le (Nat.le_refl n)).trans hdone
  change s.performed ++ [] = (List.range (n + 1)).filter fun m => !isCancelled s m
  rw [List.range_succ, List.filter_append, ← hbegun]
  simp [hcancelled]

/-- It was not, and counts as begun. -/
theorem entered {n : Nat} (hphase : s.phase = .taking n) (hdone : isDone s n = false) :
    Orderly service { s with phase := .performing n } (passed + 1) := by
  have hcome := h.come
  have hbegun := h.begun
  obtain ⟨rfl, hlt, hqueue⟩ := h.of_taking hphase
  simp only [hphase, Come, Worker.begun, List.append_nil] at hcome hbegun
  refine ⟨hlt, hqueue, ?_, h.inRange, h.answered, h.notTurnedAway, hcome⟩
  have hcancelled : isCancelled s n = false :=
    (h.isCancelled_of_passed_le (Nat.le_refl n)).trans hdone
  change s.performed ++ [n] = (List.range (n + 1)).filter fun m => !isCancelled s m
  rw [List.range_succ, List.filter_append, ← hbegun]
  simp [hcancelled]

/-- It was performed on what those before it left. -/
theorem performed {n : Nat} (hphase : s.phase = .performing n) :
    Orderly service (perform service s n) passed := by
  have hcome := h.come
  have hqueue := h.queue
  have hbegun := h.begun
  simp only [hphase, Come, Worker.begun] at hcome hqueue hbegun
  obtain ⟨hstarted, hcloses, hserved⟩ := hcome
  have hmem : n ∈ s.performed ++ [n] := List.mem_append_right _ (List.mem_singleton_self n)
  rw [hbegun] at hmem
  have hn : n < passed ∧ isCancelled s n = false := by simpa using hmem
  have hnew : n ∉ s.performed := by
    intro hperformed
    have hdone := h.isDone_of_performed hperformed
    rw [h.not_isDone hphase] at hdone
    cases hdone
  have hlt : n < s.requests.length := Nat.lt_of_lt_of_le hn.1 h.le
  have hserved' := hserved.performed hlt hnew
  obtain ⟨_, -, hinner, -⟩ := hserved
  rw [perform_eq hinner (List.getElem?_eq_getElem hlt)] at hserved' ⊢
  refine ⟨h.le, hqueue, ?_, ?_, ?_, ?_, hstarted, hcloses, hserved'⟩
  · -- the request goes from those that were begun to those that were performed
    simp only [Worker.begun, List.append_nil, hbegun]
    refine List.filter_congr fun m _ => ?_
    by_cases hm : n = m
    · subst hm
      rw [hn.2]
      simp [isCancelled, Assoc.get?_put]
    · simp [isCancelled, Assoc.get?_put, hm]
  · exact fun _ _ => h.lt_of_put hlt
  · intro m answer ho
    rw [Assoc.get?_put] at ho
    split at ho
    · rename_i hm
      exact hm ▸ List.mem_append_right _ (List.mem_singleton_self n)
    · exact List.mem_append_left _ (h.answered m answer ho)
  · exact fun _ => h.not_turnedAway_of_put nofun

theorem drained (hphase : s.phase = .draining) : Orderly service (drain s) passed := by
  have hcome := h.come
  have hqueue := h.queue
  have hbegun := h.begun
  simp only [hphase, Come, Worker.begun] at hcome hqueue hbegun
  obtain ⟨hstopped, hstarted, hcloses, hnone, hpassed, hserved⟩ := hcome
  have hdrain : drain s = { s with phase := .ended, closes := s.closes + 1 } := by
    rw [drain, hnone]
  rw [hdrain]
  exact ⟨h.le, hqueue, hbegun, h.inRange, h.answered, h.notTurnedAway, hstopped, hstarted,
    .inl ⟨congrArg (· + 1) hcloses, hpassed, hserved⟩⟩

/-- Every step keeps a worker orderly. -/
theorem step {l : Label ρ} (hstep : Worker.step service s l = some s') :
    ∃ passed', Orderly service s' passed' := by
  cases stepped_of_step hstep with
  | stayed => exact ⟨_, h⟩
  | started hstarted => exact ⟨_, h.started hstarted⟩
  | accepted r hrunning => exact ⟨_, h.accepted hrunning r⟩
  | marked hstarted hopen => exact ⟨_, h.marked hstarted hopen⟩
  | stopped => exact ⟨_, h.stopped⟩
  | cancelled hlt hphase hdone => exact ⟨_, h.cancelled hlt hphase hdone⟩
  | built hphase hbuild => exact ⟨_, h.built hphase hbuild⟩
  | failed hphase hbuild => exact ⟨_, h.failed hphase hbuild⟩
  | told hphase => exact ⟨_, h.told hphase⟩
  | tookMark hphase hfirst => exact ⟨_, h.tookMark hphase hfirst⟩
  | took hphase hfirst => exact ⟨_, h.took hphase hfirst⟩
  | skipped hphase hdone => exact ⟨_, h.skipped hphase hdone⟩
  | begun hphase hdone => exact ⟨_, h.entered hphase hdone⟩
  | performed hphase => exact ⟨_, h.performed hphase⟩
  | drained hphase => exact ⟨_, h.drained hphase⟩

end Orderly

/-! ## 3. After any steps -/

/-- Some steps of clients and of the thread lead from a new worker to the state. -/
def Reached (service : Service σ ρ β ε) (s : State σ ρ β ε) : Prop :=
  ∃ labels, run service {} labels = some s

/-- A worker that was not started has accepted nothing. -/
theorem orderly_new : Orderly service ({} : State σ ρ β ε) 0 where
  le := Nat.le_refl 0
  queue := ⟨[], rfl, .inl rfl⟩
  begun := rfl
  inRange := fun _ _ h => nomatch h
  answered := fun _ _ h => nomatch h
  notTurnedAway := fun _ h => nomatch h
  come := ⟨rfl, rfl, rfl⟩

theorem Orderly.run {labels : List (Label ρ)} {passed : Nat} (h : Orderly service s passed)
    (hrun : run service s labels = some s') : ∃ passed', Orderly service s' passed' := by
  induction labels generalizing s passed with
  | nil =>
    cases hrun
    exact ⟨passed, h⟩
  | cons l labels ih =>
    obtain ⟨s₁, hstep, hrun⟩ := Option.bind_eq_some_iff.mp hrun
    obtain ⟨passed₁, h₁⟩ := h.step hstep
    exact ih h₁ hrun

theorem Reached.orderly (h : Reached service s) : ∃ passed, Orderly service s passed := by
  obtain ⟨labels, hrun⟩ := h
  exact orderly_new.run hrun

namespace Orderly

variable {passed : Nat}

theorem begun_prefix (h : Orderly service s passed) :
    Worker.begun s <+: (List.range s.requests.length).filter fun n => !isCancelled s n := by
  rw [h.begun, ← Nat.add_sub_cancel' h.le, List.range_add, List.filter_append]
  exact List.prefix_append _ _

theorem nothing_behind_mark (h : Orderly service s passed) {before after : List (Option Nat)}
    (hsplit : s.queue = before ++ none :: after) : after = [] := by
  obtain ⟨mark, hqueue, hmark⟩ := h.queue
  rw [hsplit, ← List.append_assoc] at hqueue
  -- the mark is the last of the queue, and no request is written as a mark
  have hpending : none ∉ pending passed s := by simp [pending]
  rcases hmark with rfl | ⟨rfl, -⟩
  · rw [List.append_nil] at hqueue
    exact absurd (hqueue ▸ List.mem_append_right _ List.mem_cons_self) hpending
  · rcases List.eq_nil_or_concat after with rfl | ⟨after, last, rfl⟩
    · rfl
    · rw [List.concat_eq_append, ← List.cons_append, ← List.append_assoc] at hqueue
      have hinit := (List.append_inj' hqueue rfl).1
      exact absurd (hinit ▸ List.mem_append_right _ List.mem_cons_self) hpending

/-- The service is given back at most once, and then every accepted request was decided. -/
theorem closes_eq (h : Orderly service s passed) :
    s.closes = 0 ∨ s.closes = 1 ∧ s.phase = .ended ∧ passed = s.requests.length := by
  have hcome := h.come
  cases hphase : s.phase <;> simp only [hphase, Come] at hcome
  case ended =>
    obtain ⟨-, -, ⟨hcloses, hpassed, -⟩ | ⟨hcloses, -⟩⟩ := hcome
    · exact .inr ⟨hcloses, rfl, hpassed⟩
    · exact .inl hcloses
  all_goals simp_all

/-- A worker that ended after its service was built has decided every request. -/
theorem passed_eq_of_built (h : Orderly service s passed) {inner : σ}
    (hbuild : service.build = .ok inner) (hended : s.phase = .ended) :
    passed = s.requests.length := by
  have hcome := h.come
  rw [hended] at hcome
  obtain ⟨-, -, ⟨-, hpassed, -⟩ | ⟨-, -, fault, hfault⟩⟩ := hcome
  · exact hpassed
  · rw [hbuild] at hfault
    cases hfault

/-- A worker that ended because its service was not built has decided none. -/
theorem passed_eq_of_not_built (h : Orderly service s passed) {fault : ε}
    (hbuild : service.build = .error fault) (hended : s.phase = .ended) : passed = 0 := by
  have hcome := h.come
  rw [hended] at hcome
  obtain ⟨-, -, ⟨-, -, inner, hinner, -⟩ | ⟨-, hpassed, -⟩⟩ := hcome
  · rw [hbuild] at hinner
    cases hinner
  · exact hpassed

/-- What was decided by a worker that ended was performed or cancelled. -/
theorem decided_of_ended (h : Orderly service s passed) (hended : s.phase = .ended) {n : Nat}
    (hn : n < passed) : n ∈ s.performed ∨ isCancelled s n = true := by
  rcases h.decided hn with hcancelled | hperformed | hphase
  · exact .inr hcancelled
  · exact .inl hperformed
  · rw [hended] at hphase
    cases hphase

end Orderly

/-- After any steps of any clients and of the thread: the requests that were begun are the first of
the accepted ones that were not cancelled, in the order of acceptance and none twice; those that
were performed were answered by one run over the service in which they follow each other; nothing
stands behind the stop mark; and the service is given back at most once, when every accepted
request was performed or cancelled. -/
theorem Reached.in_order (h : Reached service s) :
    (begun s <+: (List.range s.requests.length).filter fun n => !isCancelled s n) ∧
    (begun s).Nodup ∧ s.performed <+: begun s ∧
    (s.performed = [] ∨ Served service s) ∧
    (∀ before after, s.queue = before ++ none :: after → after = []) ∧
    s.closes ≤ 1 ∧
    (s.closes = 1 → ∀ n < s.requests.length, n ∈ s.performed ∨ isCancelled s n = true) := by
  obtain ⟨passed, h⟩ := h.orderly
  refine ⟨h.begun_prefix, h.nodup_begun, List.prefix_append _ _, ?_,
    fun _ _ => h.nothing_behind_mark, ?_, fun hcloses n hn => ?_⟩
  · rcases hperformed : s.performed with _ | ⟨n, rest⟩
    · exact .inl rfl
    · exact .inr (h.served_of_performed (hperformed ▸ List.mem_cons_self))
  · rcases h.closes_eq with hcloses | ⟨hcloses, -⟩ <;> omega
  · rcases h.closes_eq with hnone | ⟨-, hended, rfl⟩
    · omega
    · exact h.decided_of_ended hended hn

/-- A service that sums up what it is asked to add, and answers the sum. -/
def tally : Service Nat Nat Nat String where
  build := .ok 0
  perform n sum := (sum + n, sum + n)

/-- Three requests of which the second is cancelled between its taking and its beginning, and a
stop while the third is performed. -/
def tallySteps : List (Label Nat) :=
  [.start, .submit 5, .advance, .submit 7, .advance, .submit 9, .advance, .advance, .advance,
    .cancel 1, .advance, .advance, .advance, .stop, .submit 2, .advance, .advance, .advance]

/-- What these steps lead to. -/
def tallied : State Nat Nat Nat String := (run tally {} tallySteps).getD {}

theorem reached_tallied : Reached tally tallied := ⟨tallySteps, rfl⟩

theorem in_order_tallied :
    (begun tallied = [0, 2] ∧ tallied.closes = 1 ∧ tallied.inner = some 14) ∧
    (begun tallied <+: (List.range tallied.requests.length).filter fun n =>
      !isCancelled tallied n) ∧
    (tallied.performed = [] ∨ Served tally tallied) ∧
    ∀ n < tallied.requests.length, n ∈ tallied.performed ∨ isCancelled tallied n = true := by
  have h := Reached.in_order reached_tallied
  obtain ⟨hbegun, -, -, hserved, -, -, hclosed⟩ := h
  exact ⟨by decide, hbegun, hserved, hclosed (by decide)⟩

/-- Once the thread has ended, every accepted request has an outcome exactly if the service was
built, or if all of them were cancelled. -/
theorem Reached.all_done_iff (h : Reached service s) (hended : s.phase = .ended) :
    (∀ n < s.requests.length, isDone s n = true) ↔
      (∃ inner, service.build = .ok inner) ∨
        ∀ n < s.requests.length, isCancelled s n = true := by
  obtain ⟨passed, h⟩ := h.orderly
  constructor
  · intro hdone
    cases hbuild : service.build with
    | ok inner => exact .inl ⟨inner, rfl⟩
    | error fault =>
      have hpassed := h.passed_eq_of_not_built hbuild hended
      refine .inr fun n hn => ?_
      rw [h.isCancelled_of_passed_le (hpassed ▸ Nat.zero_le n)]
      exact hdone n hn
  · rintro (⟨inner, hbuild⟩ | hcancelled) n hn
    · rw [← h.passed_eq_of_built hbuild hended] at hn
      rcases h.decided_of_ended hended hn with hperformed | hcancelled
      · exact h.isDone_of_performed hperformed
      · exact isDone_iff.mpr ⟨_, isCancelled_iff.mp hcancelled⟩
    · exact isDone_iff.mpr ⟨_, isCancelled_iff.mp (hcancelled n hn)⟩

theorem all_done_tallied :
    tallied.phase = .ended ∧ ∀ n < tallied.requests.length, isDone tallied n = true :=
  ⟨by decide, (Reached.all_done_iff reached_tallied (by decide)).mpr (.inl ⟨0, rfl⟩)⟩

/-- A request that is accepted while the service is built stays without outcome when the build
fails. -/
theorem exists_forsaken :
    ∃ (service : Service Unit Unit Unit String) (s : State Unit Unit Unit String),
      Reached service s ∧ s.phase = .ended ∧ ∃ n < s.requests.length, isDone s n = false :=
  ⟨{ build := .error "no debug engine", perform := fun _ inner => ((), inner) }, _,
    ⟨[.start, .submit (), .advance, .advance], rfl⟩, rfl, 0, by decide, rfl⟩

end NativeTypes.Worker
