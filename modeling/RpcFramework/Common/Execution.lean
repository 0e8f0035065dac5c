import RpcFramework.Common.ThreadPool
import RpcFramework.Lib.Census

/-!
# What the thread pool executes

What holds of the mutex, of the queue, of the tasks and of the workers in every state of a
thread pool, whatever the order in which its threads take their steps.  Each of the four is
kept by every step; together they say that an accepted task is executed, and only once.

## Main definitions

* `ThreadPool.Guarded` — the mutex has one owner, and `pending_tasks_` is what it guards.
* `ThreadPool.Queued` — the queue is first in, first out.
* `ThreadPool.Execution` — a task taken off the queue is in one hand, or finished.
* `ThreadPool.Shutdown` — a worker leaves a stopped pool with an empty queue.

## Main results

* `ThreadPool.Sound.step` — every step keeps the four.
* `ThreadPool.threadPool_executes` — **every task that is accepted is executed, once.**
-/

namespace ThreadPool

variable {n : ℕ}

/-! ### The mutex and the counter of the queue -/

def Worker.holds : Worker → Bool
  | .locked | .parking | .popped _ | .counted _ => true
  | _ => false

def Producer.holds : Producer → Bool
  | .locked | .pushed _ | .counted _ => true
  | _ => false

def Waiter.holds : Waiter → Bool
  | .locked _ | .parking _ => true
  | _ => false

def Stopper.holds : Stopper → Bool
  | .locked | .stopped => true
  | _ => false

/-- By how much `pending_tasks_` is ahead of the queue, where a worker has not counted its
task down. -/
def Worker.lead : Worker → ℤ
  | .popped _ => 1
  | _ => 0

/-- The same for a producer that has not counted its task up. -/
def Producer.lead : Producer → ℤ
  | .pushed _ => -1
  | _ => 0

namespace State

def holds (s : State n) : Thread n → Bool
  | .worker w => (s.workers w).holds
  | .producer p => (s.producers p).holds
  | .waiter v => (s.waiters v).holds
  | .stopper => s.stopper.holds

def lead (s : State n) : Thread n → ℤ
  | .worker w => (s.workers w).lead
  | .producer p => (s.producers p).lead
  | _ => 0

end State

section Places

variable {s : State n}

theorem holds_worker {w : Fin n} {place : Worker} (hw : s.workers w = place) :
    s.holds (.worker w) = place.holds := congrArg Worker.holds hw

theorem lead_worker {w : Fin n} {place : Worker} (hw : s.workers w = place) :
    s.lead (.worker w) = place.lead := congrArg Worker.lead hw

theorem holds_producer {p : ℕ} {place : Producer} (hp : s.producers p = place) :
    s.holds (.producer p) = place.holds := congrArg Producer.holds hp

theorem lead_producer {p : ℕ} {place : Producer} (hp : s.producers p = place) :
    s.lead (.producer p) = place.lead := congrArg Producer.lead hp

theorem holds_waiter {v : ℕ} {place : Waiter} (hv : s.waiters v = place) :
    s.holds (.waiter v) = place.holds := congrArg Waiter.holds hv

theorem holds_stopper {place : Stopper} (hstop : s.stopper = place) :
    s.holds .stopper = place.holds := congrArg Stopper.holds hstop

end Places

/-- `queue_mutex_` has one owner at most, and `pending_tasks_` is the size of the queue, but
for what its owner has not counted yet. -/
structure Guarded (s : State n) : Prop where
  exclusive : Exclusive s.holds s.queueMutex
  pending : s.pendingTasks = s.tasks.length + s.queueMutex.elim 0 s.lead

/-- The two states look the same to the mutex at a thread. -/
def SameAt (s t : State n) (i : Thread n) : Prop := t.holds i = s.holds i ∧ t.lead i = s.lead i

section Guarded

variable {s t : State n} {i : Thread n}

theorem sameAt_setWorker {w : Fin n} {place : Worker} (hi : i ≠ .worker w) :
    SameAt s (s.setWorker w place) i := by
  cases i with
  | worker w' =>
    have hne : w' ≠ w := fun heq => hi (heq ▸ rfl)
    simp only [SameAt, State.holds, State.lead, State.setWorker, Function.update_of_ne hne,
      and_self]
  | producer p => exact ⟨rfl, rfl⟩
  | waiter v => exact ⟨rfl, rfl⟩
  | stopper => exact ⟨rfl, rfl⟩

theorem sameAt_setProducer {p : ℕ} {place : Producer} (hi : i ≠ .producer p) :
    SameAt s (s.setProducer p place) i := by
  cases i with
  | worker w => exact ⟨rfl, rfl⟩
  | producer p' =>
    have hne : p' ≠ p := fun heq => hi (heq ▸ rfl)
    simp only [SameAt, State.holds, State.lead, State.setProducer, Function.update_of_ne hne,
      and_self]
  | waiter v => exact ⟨rfl, rfl⟩
  | stopper => exact ⟨rfl, rfl⟩

theorem sameAt_setWaiter {v : ℕ} {place : Waiter} (hi : i ≠ .waiter v) :
    SameAt s (s.setWaiter v place) i := by
  cases i with
  | worker w => exact ⟨rfl, rfl⟩
  | producer p => exact ⟨rfl, rfl⟩
  | waiter v' =>
    have hne : v' ≠ v := fun heq => hi (heq ▸ rfl)
    simp only [SameAt, State.holds, State.lead, State.setWaiter, Function.update_of_ne hne,
      and_self]
  | stopper => exact ⟨rfl, rfl⟩

/-- Nobody locks or unlocks, and nothing is counted. -/
theorem Guarded.quiet (h : Guarded s) (hsame : ∀ i, SameAt s t i)
    (hmutex : t.queueMutex = s.queueMutex) (hpending : t.pendingTasks = s.pendingTasks)
    (htasks : t.tasks = s.tasks) : Guarded t := by
  have hlead : t.lead = s.lead := funext fun i => (hsame i).2
  refine ⟨?_, ?_⟩
  · rw [hmutex]
    exact h.exclusive.stay fun i => (hsame i).1
  · rw [hpending, htasks, hmutex, hlead]
    exact h.pending

/-- A thread locks the mutex. -/
theorem Guarded.acquire (h : Guarded s) (hfree : s.queueMutex = none)
    (hrest : ∀ j, j ≠ i → SameAt s t j) (hmutex : t.queueMutex = some i)
    (hholds : t.holds i = true) (hlead : t.lead i = 0)
    (hpending : t.pendingTasks = s.pendingTasks) (htasks : t.tasks = s.tasks) : Guarded t := by
  refine ⟨?_, ?_⟩
  · rw [hmutex]
    exact (hfree ▸ h.exclusive).acquire hholds fun j hj => (hrest j hj).1
  · rw [hpending, htasks, hmutex, h.pending, hfree, Option.elim_some, hlead, Option.elim_none]

/-- The owner unlocks it, with everything counted. -/
theorem Guarded.release (h : Guarded s) (howner : s.holds i = true) (hcounted : s.lead i = 0)
    (hrest : ∀ j, j ≠ i → SameAt s t j) (hmutex : t.queueMutex = none)
    (hholds : t.holds i = false) (hpending : t.pendingTasks = s.pendingTasks)
    (htasks : t.tasks = s.tasks) : Guarded t := by
  refine ⟨?_, ?_⟩
  · rw [hmutex]
    exact h.exclusive.release howner hholds fun j hj => (hrest j hj).1
  · rw [hpending, htasks, hmutex, h.pending, h.exclusive.owner_eq howner, Option.elim_some,
      hcounted, Option.elim_none]

/-- The owner goes on with the mutex locked. -/
theorem Guarded.inside (h : Guarded s) (howner : s.holds i = true)
    (hrest : ∀ j, j ≠ i → SameAt s t j) (hmutex : t.queueMutex = s.queueMutex)
    (hholds : t.holds i = true)
    (hcount : t.pendingTasks - t.tasks.length - t.lead i =
      s.pendingTasks - s.tasks.length - s.lead i) : Guarded t := by
  have hpending := h.pending
  rw [h.exclusive.owner_eq howner] at hmutex hpending
  refine ⟨?_, ?_⟩
  · intro j
    rw [hmutex]
    by_cases hj : j = i
    · subst hj
      exact iff_of_true hholds rfl
    · rw [(hrest j hj).1, h.exclusive j, h.exclusive.owner_eq howner]
  · rw [hmutex]
    simp only [Option.elim_some] at hpending ⊢
    omega

/-- One worker moves, and neither place has to do with the mutex. -/
theorem sameAt_setWorker_all {w : Fin n} {old place : Worker} (hw : s.workers w = old)
    (hholds : place.holds = old.holds) (hlead : place.lead = old.lead) :
    ∀ i, SameAt s (s.setWorker w place) i := by
  subst hw
  intro i
  by_cases hi : i = .worker w
  · subst hi
    simp only [SameAt, State.holds, State.lead, State.setWorker, Function.update_self]
    exact ⟨hholds, hlead⟩
  · exact sameAt_setWorker hi

/-- The same for a thread in `waitForCompletion`. -/
theorem sameAt_setWaiter_all {v : ℕ} {old place : Waiter} (hv : s.waiters v = old)
    (hholds : place.holds = old.holds) : ∀ i, SameAt s (s.setWaiter v place) i := by
  subst hv
  intro i
  by_cases hi : i = .waiter v
  · subst hi
    simp only [SameAt, State.holds, State.lead, State.setWaiter, Function.update_self]
    exact ⟨hholds, trivial⟩
  · exact sameAt_setWaiter hi

/-- The same for a thread in `enqueue`. -/
theorem sameAt_setProducer_all {p : ℕ} {old place : Producer} (hp : s.producers p = old)
    (hholds : place.holds = old.holds) (hlead : place.lead = old.lead) :
    ∀ i, SameAt s (s.setProducer p place) i := by
  subst hp
  intro i
  by_cases hi : i = .producer p
  · subst hi
    simp only [SameAt, State.holds, State.lead, State.setProducer, Function.update_self]
    exact ⟨hholds, hlead⟩
  · exact sameAt_setProducer hi

/-- Only the thread in `stop` sees what it does to its own place. -/
theorem sameAt_others {place : Stopper} (hi : i ≠ .stopper) :
    SameAt s { s with stopper := place } i := by
  cases i with
  | worker w => exact ⟨rfl, rfl⟩
  | producer p => exact ⟨rfl, rfl⟩
  | waiter v => exact ⟨rfl, rfl⟩
  | stopper => exact absurd rfl hi

theorem sameAt_stopper {old place : Stopper} (hstop : s.stopper = old)
    (hholds : place.holds = old.holds) : ∀ i, SameAt s { s with stopper := place } i := by
  subst hstop
  intro i
  by_cases hi : i = .stopper
  · subst hi
    exact ⟨hholds, rfl⟩
  · exact sameAt_others hi

theorem holds_setWorker (s : State n) (w : Fin n) (place : Worker) :
    (s.setWorker w place).holds (.worker w) = place.holds := by
  simp only [State.holds, State.setWorker, Function.update_self]

theorem lead_setWorker (s : State n) (w : Fin n) (place : Worker) :
    (s.setWorker w place).lead (.worker w) = place.lead := by
  simp only [State.lead, State.setWorker, Function.update_self]

theorem holds_setProducer (s : State n) (p : ℕ) (place : Producer) :
    (s.setProducer p place).holds (.producer p) = place.holds := by
  simp only [State.holds, State.setProducer, Function.update_self]

theorem lead_setProducer (s : State n) (p : ℕ) (place : Producer) :
    (s.setProducer p place).lead (.producer p) = place.lead := by
  simp only [State.lead, State.setProducer, Function.update_self]

theorem holds_setWaiter (s : State n) (v : ℕ) (place : Waiter) :
    (s.setWaiter v place).holds (.waiter v) = place.holds := by
  simp only [State.holds, State.setWaiter, Function.update_self]

theorem Worker.holds_wake (place : Worker) : place.wake.holds = place.holds := by
  cases place <;> rfl

theorem Worker.lead_wake (place : Worker) : place.wake.lead = place.lead := by
  cases place <;> rfl

theorem Waiter.holds_wake (place : Waiter) : place.wake.holds = place.holds := by
  cases place <;> rfl

theorem sameAt_wakeWorkers :
    ∀ i, SameAt s { s with workers := fun w => (s.workers w).wake } i := by
  intro i
  cases i with
  | worker w => exact ⟨(s.workers w).holds_wake, (s.workers w).lead_wake⟩
  | producer p => exact ⟨rfl, rfl⟩
  | waiter v => exact ⟨rfl, rfl⟩
  | stopper => exact ⟨rfl, rfl⟩

theorem sameAt_wakeWaiters :
    ∀ i, SameAt s { s with waiters := fun v => (s.waiters v).wake } i := by
  intro i
  cases i with
  | worker w => exact ⟨rfl, rfl⟩
  | producer p => exact ⟨rfl, rfl⟩
  | waiter v => exact ⟨(s.waiters v).holds_wake, rfl⟩
  | stopper => exact ⟨rfl, rfl⟩

theorem Guarded.work {w : Fin n} {outcome : Outcome} (h : Guarded s)
    (hstep : work s w outcome = some t) : Guarded t := by
  cases work_cases hstep with
  | lock hw hfree =>
    exact h.acquire hfree (fun j hj => sameAt_setWorker hj) rfl (holds_setWorker ..)
      (lead_setWorker ..) rfl rfl
  | park hw =>
    exact h.inside (holds_worker hw) (fun j hj => sameAt_setWorker hj) rfl (holds_setWorker ..)
      (by rw [lead_setWorker, lead_worker hw]; rfl)
  | leave hw =>
    exact h.release (holds_worker hw) (lead_worker hw) (fun j hj => sameAt_setWorker hj) rfl
      (holds_setWorker ..) rfl rfl
  | pop task tasks hw htasks =>
    refine h.inside (holds_worker hw) (fun j hj => sameAt_setWorker hj) rfl (holds_setWorker ..) ?_
    rw [lead_setWorker, lead_worker hw, htasks, List.length_cons]
    simp only [State.setWorker, Worker.lead]
    omega
  | block hw =>
    exact h.release (holds_worker hw) (lead_worker hw) (fun j hj => sameAt_setWorker hj) rfl
      (holds_setWorker ..) rfl rfl
  | count task hw =>
    refine h.inside (holds_worker hw) (fun j hj => sameAt_setWorker hj) rfl (holds_setWorker ..) ?_
    rw [lead_setWorker, lead_worker hw]
    simp only [State.setWorker, Worker.lead]
    omega
  | take task hw =>
    exact h.release (holds_worker hw) (lead_worker hw) (fun j hj => sameAt_setWorker hj) rfl
      (holds_setWorker ..) rfl rfl
  | enter task hw => exact h.quiet (sameAt_setWorker_all hw rfl rfl) rfl rfl rfl
  | start task hw => exact h.quiet (sameAt_setWorker_all hw rfl rfl) rfl rfl rfl
  | finish task hw => exact h.quiet (sameAt_setWorker_all hw rfl rfl) rfl rfl rfl
  | depart before hw => exact h.quiet (sameAt_setWorker_all hw rfl rfl) rfl rfl rfl
  | testActive hw =>
    refine h.quiet (sameAt_setWorker_all hw ?_ ?_) rfl rfl rfl <;> split <;> rfl
  | testPending hw =>
    refine h.quiet (sameAt_setWorker_all hw ?_ ?_) rfl rfl rfl <;> split <;> rfl
  | notify hw =>
    have hwoken : Guarded { s with waiters := fun v => (s.waiters v).wake } :=
      h.quiet sameAt_wakeWaiters rfl rfl rfl
    exact hwoken.quiet (sameAt_setWorker_all hw rfl rfl) rfl rfl rfl

theorem Guarded.enqueue {p : ℕ} (h : Guarded s) (hstep : enqueue s p = some t) : Guarded t := by
  cases enqueue_cases hstep with
  | call hp =>
    exact h.quiet (sameAt_setProducer_all hp rfl rfl) rfl rfl rfl
  | lock hp hfree =>
    exact h.acquire hfree (fun j hj => sameAt_setProducer hj) rfl (holds_setProducer ..)
      (lead_setProducer ..) rfl rfl
  | refuse hp hstop =>
    exact h.release (holds_producer hp) (lead_producer hp) (fun j hj => sameAt_setProducer hj) rfl
      (holds_setProducer ..) rfl rfl
  | push hp hstop =>
    refine h.inside (holds_producer hp) (fun j hj => sameAt_setProducer hj) rfl
      (holds_setProducer ..) ?_
    rw [lead_setProducer, lead_producer hp]
    simp only [State.setProducer, Producer.lead, List.length_append, List.length_singleton]
    omega
  | count task hp =>
    refine h.inside (holds_producer hp) (fun j hj => sameAt_setProducer hj) rfl
      (holds_setProducer ..) ?_
    rw [lead_setProducer, lead_producer hp]
    simp only [State.setProducer, Producer.lead]
    omega
  | unlock task hp =>
    exact h.release (holds_producer hp) (lead_producer hp) (fun j hj => sameAt_setProducer hj) rfl
      (holds_setProducer ..) rfl rfl

theorem Guarded.notifyOne {p : ℕ} {w : Option (Fin n)} (h : Guarded s)
    (hstep : notifyOne s p w = some t) : Guarded t := by
  obtain ⟨task, hp, hw⟩ := notifyOne_cases hstep
  have hback : Guarded ({ s with accepted := s.accepted ++ [task] }.setProducer p .outside) :=
    h.quiet (sameAt_setProducer_all hp rfl rfl) rfl rfl rfl
  rcases hw with ⟨-, -, rfl⟩ | ⟨w, -, hwaiting, rfl⟩
  · exact hback
  · exact hback.quiet (sameAt_setWorker_all hwaiting rfl rfl) rfl rfl rfl

theorem Guarded.wait {v : ℕ} (h : Guarded s) (hstep : wait s v = some t) : Guarded t := by
  cases wait_cases hstep with
  | call hv => exact h.quiet (sameAt_setWaiter_all hv rfl) rfl rfl rfl
  | lock before hv hfree =>
    exact h.acquire hfree (fun j hj => sameAt_setWaiter hj) rfl (holds_setWaiter ..) rfl rfl rfl
  | leave before hv hdone =>
    exact h.release (holds_waiter hv) rfl (fun j hj => sameAt_setWaiter hj) rfl
      (holds_setWaiter ..) rfl rfl
  | park before hv hbusy =>
    exact h.quiet (sameAt_setWaiter_all hv rfl) rfl rfl rfl
  | block before hv =>
    exact h.release (holds_waiter hv) rfl (fun j hj => sameAt_setWaiter hj) rfl
      (holds_setWaiter ..) rfl rfl

theorem Guarded.stop (h : Guarded s) (hstep : stop s = some t) : Guarded t := by
  cases stop_cases hstep with
  | again hstop hset => exact h.quiet (sameAt_stopper hstop rfl) rfl rfl rfl
  | call hstop hset => exact h.quiet (sameAt_stopper hstop rfl) rfl rfl rfl
  | lock hstop hfree => exact h.acquire hfree (fun j hj => sameAt_others hj) rfl rfl rfl rfl rfl
  | set hstop =>
    exact h.inside (holds_stopper hstop) (fun j hj => sameAt_others hj) rfl rfl rfl
  | unlock hstop =>
    exact h.release (holds_stopper hstop) rfl (fun j hj => sameAt_others hj) rfl rfl rfl rfl
  | notify hstop =>
    have hwoken : Guarded { s with workers := fun w => (s.workers w).wake } :=
      h.quiet sameAt_wakeWorkers rfl rfl rfl
    exact hwoken.quiet (sameAt_stopper hstop rfl) rfl rfl rfl
  | join k hk hstop hw => exact h.quiet (sameAt_stopper hstop rfl) rfl rfl rfl
  | leave k hk hstop => exact h.quiet (sameAt_stopper hstop rfl) rfl rfl rfl

/-- **Every step keeps the mutex and the counter in order.** -/
theorem Guarded.step {a : Action n} (h : Guarded s) (hstep : step s a = some t) : Guarded t := by
  cases a with
  | work w outcome => exact h.work hstep
  | wakeWorker w =>
    obtain ⟨hw, rfl⟩ := wakeWorker_cases hstep
    exact h.quiet (sameAt_setWorker_all hw rfl rfl) rfl rfl rfl
  | enqueue p => exact h.enqueue hstep
  | notifyOne p w => exact h.notifyOne hstep
  | wait v => exact h.wait hstep
  | wakeWaiter v =>
    obtain ⟨before, hv, rfl⟩ := wakeWaiter_cases hstep
    exact h.quiet (sameAt_setWaiter_all hv rfl) rfl rfl rfl
  | stop => exact h.stop hstep

theorem guarded_init : Guarded ({} : State n) := by
  refine ⟨?_, rfl⟩
  intro i
  cases i <;> simp [State.holds, Worker.holds, Producer.holds, Waiter.holds, Stopper.holds]

end Guarded

/-! ### The tasks -/

/-- The places where `active_threads_` counts the worker. -/
def Worker.active : Worker → Bool
  | .entered _ | .running _ | .ended _ => true
  | _ => false

/-- The task that a worker has taken and not finished. -/
def Worker.hand : Worker → Option Task
  | .popped task | .counted task | .taken task | .entered task | .running task => some task
  | _ => none

/-- The task that a worker is executing. -/
def Worker.runs : Worker → Option Task
  | .running task => some task
  | _ => none

/-- The task that a call of `enqueue` has put into the queue. -/
def Producer.task : Producer → Option Task
  | .pushed task | .counted task | .notifying task => some task
  | _ => none

/-- The tasks whose `enqueue` had returned when a call of `waitForCompletion` began. -/
def Waiter.before : Waiter → List Task
  | .outside => []
  | .entering before | .locked before | .parking before | .blocked before => before

/-- The queue is first in, first out, and a task is accepted only if it went through it. -/
structure Queued (s : State n) : Prop where
  order : s.enqueued = s.dequeued ++ s.tasks
  numbered : s.enqueued = List.range s.enqueued.length
  pushed : ∀ p task, (s.producers p).task = some task → task ∈ s.enqueued
  accepted : ∀ task ∈ s.accepted, task ∈ s.enqueued
  before : ∀ v, ∀ task ∈ (s.waiters v).before, task ∈ s.enqueued

/-- Whatever was taken off the queue is in the hand of a worker, or finished; what was
started is being executed, or finished. -/
structure Execution (s : State n) : Prop where
  active : s.activeThreads = census s.workers Worker.active
  hand : ∀ task, s.dequeued.count task =
    s.finished.count task + census s.workers fun place => place.hand == some task
  runs : ∀ task, s.started.count task =
    s.finished.count task + census s.workers fun place => place.runs == some task

section Execution

variable {s t : State n}

theorem count_concat (tasks : List Task) (task task' : Task) :
    (tasks ++ [task]).count task' = tasks.count task' + (some task == some task').toNat := by
  rw [List.count_append, List.count_singleton]
  cases h : task == task' <;> simp_all

/-- The queue and its two ends are as they were. -/
theorem Queued.congr (h : Queued s) (hqueue : t.dequeued ++ t.tasks = s.dequeued ++ s.tasks)
    (henqueued : t.enqueued = s.enqueued)
    (hproducers : ∀ p, (t.producers p).task = (s.producers p).task ∨ (t.producers p).task = none)
    (haccepted : t.accepted = s.accepted)
    (hwaiters : ∀ v, ∀ task ∈ (t.waiters v).before,
      task ∈ (s.waiters v).before ∨ task ∈ s.accepted) : Queued t := by
  refine ⟨?_, ?_, ?_, ?_, ?_⟩
  · rw [henqueued, hqueue, h.order]
  · rw [henqueued]
    exact h.numbered
  · intro p task htask
    rw [henqueued]
    rcases hproducers p with hsame | hnone
    · exact h.pushed p task (hsame ▸ htask)
    · rw [hnone] at htask
      cases htask
  · rw [henqueued, haccepted]
    exact h.accepted
  · intro v task htask
    rw [henqueued]
    rcases hwaiters v task htask with hbefore | haccepted
    · exact h.before v task hbefore
    · exact h.accepted task haccepted

/-- One worker moves, and what it does is counted. -/
theorem Execution.move {w : Fin n} {old place : Worker} (h : Execution s)
    (hw : s.workers w = old) (hworkers : t.workers = Function.update s.workers w place)
    (hactive : t.activeThreads - place.active.toNat = s.activeThreads - old.active.toNat)
    (hhand : ∀ task,
      t.dequeued.count task + s.finished.count task + (old.hand == some task).toNat =
        s.dequeued.count task + t.finished.count task + (place.hand == some task).toNat)
    (hruns : ∀ task,
      t.started.count task + s.finished.count task + (old.runs == some task).toNat =
        s.started.count task + t.finished.count task + (place.runs == some task).toNat) :
    Execution t := by
  subst hw
  refine ⟨?_, ?_, ?_⟩
  · have hcensus := census_update s.workers Worker.active w place
    have := h.active
    rw [hworkers]
    omega
  · intro task
    have hcensus := census_update s.workers (fun place => place.hand == some task) w place
    have := h.hand task
    have := hhand task
    rw [hworkers]
    omega
  · intro task
    have hcensus := census_update s.workers (fun place => place.runs == some task) w place
    have := h.runs task
    have := hruns task
    rw [hworkers]
    omega

/-- A worker moves without having to do with a task. -/
theorem Execution.pass {w : Fin n} {old place : Worker} (h : Execution s)
    (hw : s.workers w = old) (hworkers : t.workers = Function.update s.workers w place)
    (hactive : place.active = old.active) (hhand : place.hand = old.hand)
    (hruns : place.runs = old.runs) (hcounter : t.activeThreads = s.activeThreads)
    (hdequeued : t.dequeued = s.dequeued) (hstarted : t.started = s.started)
    (hfinished : t.finished = s.finished) : Execution t := by
  refine h.move hw hworkers ?_ ?_ ?_
  · rw [hactive, hcounter]
  · intro task
    rw [hhand, hdequeued, hfinished]
  · intro task
    rw [hruns, hstarted, hfinished]

/-- Nobody but blocked workers moves. -/
theorem Execution.congr (h : Execution s)
    (hworkers : ∀ w, (t.workers w).active = (s.workers w).active ∧
      (t.workers w).hand = (s.workers w).hand ∧ (t.workers w).runs = (s.workers w).runs)
    (hcounter : t.activeThreads = s.activeThreads) (hdequeued : t.dequeued = s.dequeued)
    (hstarted : t.started = s.started) (hfinished : t.finished = s.finished) :
    Execution t := by
  refine ⟨?_, ?_, ?_⟩
  · rw [hcounter, h.active, census_congr fun w => (hworkers w).1]
  · intro task
    rw [hdequeued, hfinished, h.hand task,
      census_congr fun w => by rw [(hworkers w).2.1]]
  · intro task
    rw [hstarted, hfinished, h.runs task,
      census_congr fun w => by rw [(hworkers w).2.2]]

theorem Waiter.before_wake (place : Waiter) : place.wake.before = place.before := by
  cases place <;> rfl

theorem Worker.wake_congr (place : Worker) :
    place.wake.active = place.active ∧ place.wake.hand = place.hand ∧
      place.wake.runs = place.runs := by
  cases place <;> exact ⟨rfl, rfl, rfl⟩

/-- A worker takes the next task off the queue, and nothing else changes there. -/
theorem Queued.work {w : Fin n} {outcome : Outcome} (h : Queued s)
    (hstep : work s w outcome = some t) : Queued t := by
  cases work_cases hstep with
  | pop task tasks hw htasks =>
    refine h.congr ?_ rfl (fun p => .inl rfl) rfl fun v task htask => .inl htask
    rw [htasks]
    exact List.append_assoc s.dequeued [task] tasks
  | notify hw =>
    refine h.congr rfl rfl (fun p => .inl rfl) rfl ?_
    intro v task htask
    exact .inl ((s.waiters v).before_wake ▸ htask)
  | _ => exact h.congr rfl rfl (fun p => .inl rfl) rfl fun v task htask => .inl htask

theorem Queued.enqueue {p : ℕ} (h : Queued s) (hstep : enqueue s p = some t) : Queued t := by
  have hmove : ∀ {s' : State n} {place : Producer}, s'.producers = s.producers →
      place.task = (s.producers p).task ∨ place.task = none → ∀ p',
      ((s'.setProducer p place).producers p').task = (s.producers p').task ∨
        ((s'.setProducer p place).producers p').task = none := by
    intro s' place hsame htask p'
    rw [producers_setProducer, hsame]
    split
    · next heq => exact heq ▸ htask
    · exact .inl rfl
  cases enqueue_cases hstep with
  | push hp hstop =>
    have hlength : (s.enqueued ++ [s.enqueued.length]).length = s.enqueued.length + 1 :=
      List.length_append
    refine ⟨?_, ?_, ?_, ?_, ?_⟩
    · show s.enqueued ++ [_] = s.dequeued ++ (s.tasks ++ [_])
      rw [← List.append_assoc, ← h.order]
    · show s.enqueued ++ [_] = List.range (s.enqueued ++ [_]).length
      rw [hlength, List.range_succ, ← h.numbered]
    · intro p' task htask
      rw [producers_setProducer] at htask
      show task ∈ s.enqueued ++ [_]
      split at htask
      · obtain rfl := Option.some.inj htask
        exact List.mem_append_right _ (List.mem_singleton_self _)
      · exact List.mem_append_left _ (h.pushed p' task htask)
    · intro task htask
      exact List.mem_append_left _ (h.accepted task htask)
    · intro v task htask
      exact List.mem_append_left _ (h.before v task htask)
  | call hp => exact h.congr rfl rfl (hmove rfl (.inr rfl)) rfl fun v task => .inl
  | lock hp hfree => exact h.congr rfl rfl (hmove rfl (.inr rfl)) rfl fun v task => .inl
  | refuse hp hstop => exact h.congr rfl rfl (hmove rfl (.inr rfl)) rfl fun v task => .inl
  | count task hp =>
    exact h.congr rfl rfl (hmove rfl (.inl (by rw [hp]; rfl))) rfl fun v task => .inl
  | unlock task hp =>
    exact h.congr rfl rfl (hmove rfl (.inl (by rw [hp]; rfl))) rfl fun v task => .inl

theorem Queued.notifyOne {p : ℕ} {w : Option (Fin n)} (h : Queued s)
    (hstep : notifyOne s p w = some t) : Queued t := by
  obtain ⟨task, hp, hw⟩ := notifyOne_cases hstep
  have hback : Queued ({ s with accepted := s.accepted ++ [task] }.setProducer p .outside) := by
    refine ⟨h.order, h.numbered, ?_, ?_, h.before⟩
    · intro p' task' htask
      rw [producers_setProducer] at htask
      split at htask
      · cases htask
      · exact h.pushed p' task' htask
    · intro task' htask
      rcases List.mem_append.mp htask with hold | hnew
      · exact h.accepted task' hold
      · obtain rfl := List.mem_singleton.mp hnew
        exact h.pushed p task' (by rw [hp]; rfl)
  rcases hw with ⟨-, -, rfl⟩ | ⟨v, -, -, rfl⟩
  · exact hback
  · exact hback.congr rfl rfl (fun p => .inl rfl) rfl fun v task => .inl

theorem Queued.wait {v : ℕ} (h : Queued s) (hstep : wait s v = some t) : Queued t := by
  have hmove : ∀ {s' : State n} {place : Waiter}, s'.waiters = s.waiters →
      (∀ task ∈ place.before, task ∈ (s.waiters v).before ∨ task ∈ s.accepted) →
      ∀ v', ∀ task ∈ ((s'.setWaiter v place).waiters v').before,
        task ∈ (s.waiters v').before ∨ task ∈ s.accepted := by
    intro s' place hsame hbefore v' task htask
    rw [waiters_setWaiter, hsame] at htask
    split at htask
    · next heq => exact heq ▸ hbefore task htask
    · exact .inl htask
  cases wait_cases hstep with
  | call hv => exact h.congr rfl rfl (fun p => .inl rfl) rfl (hmove rfl fun task => .inr)
  | lock before hv hfree =>
    exact h.congr rfl rfl (fun p => .inl rfl) rfl (hmove rfl fun task => .inl ∘ (hv ▸ ·))
  | leave before hv hdone =>
    exact h.congr rfl rfl (fun p => .inl rfl) rfl
      (hmove rfl fun task htask => absurd htask List.not_mem_nil)
  | park before hv hbusy =>
    exact h.congr rfl rfl (fun p => .inl rfl) rfl (hmove rfl fun task => .inl ∘ (hv ▸ ·))
  | block before hv =>
    exact h.congr rfl rfl (fun p => .inl rfl) rfl (hmove rfl fun task => .inl ∘ (hv ▸ ·))

/-- **Every step keeps the queue in order.** -/
theorem Queued.step {a : Action n} (h : Queued s) (hstep : step s a = some t) : Queued t := by
  cases a with
  | work w outcome => exact h.work hstep
  | wakeWorker w =>
    obtain ⟨-, rfl⟩ := wakeWorker_cases hstep
    exact h.congr rfl rfl (fun p => .inl rfl) rfl fun v task => .inl
  | enqueue p => exact h.enqueue hstep
  | notifyOne p w => exact h.notifyOne hstep
  | wait v => exact h.wait hstep
  | wakeWaiter v =>
    obtain ⟨before, hv, rfl⟩ := wakeWaiter_cases hstep
    refine h.congr rfl rfl (fun p => .inl rfl) rfl ?_
    intro v' task htask
    rw [waiters_setWaiter] at htask
    split at htask
    · next heq =>
      rw [heq, hv]
      exact .inl htask
    · exact .inl htask
  | stop =>
    cases stop_cases hstep <;>
      exact h.congr rfl rfl (fun p => .inl rfl) rfl fun v task => .inl

theorem Execution.work {w : Fin n} {outcome : Outcome} (h : Execution s)
    (hstep : work s w outcome = some t) : Execution t := by
  cases work_cases hstep with
  | lock hw hfree =>
    exact h.pass hw rfl rfl rfl rfl rfl rfl rfl rfl
  | park hw =>
    exact h.pass hw rfl rfl rfl rfl rfl rfl rfl rfl
  | leave hw =>
    exact h.pass hw rfl rfl rfl rfl rfl rfl rfl rfl
  | pop task tasks hw htasks =>
    refine h.move hw rfl rfl (fun task' => ?_) fun task' => rfl
    show (s.dequeued ++ [task]).count task' + _ + _ = _ + s.finished.count task' + _
    rw [count_concat]
    simp only [Worker.hand, Option.none_beq_some, Bool.toNat_false]
    omega
  | block hw =>
    exact h.pass hw rfl rfl rfl rfl rfl rfl rfl rfl
  | count task hw =>
    exact h.pass hw rfl rfl rfl rfl rfl rfl rfl rfl
  | take task hw =>
    exact h.pass hw rfl rfl rfl rfl rfl rfl rfl rfl
  | enter task hw =>
    refine h.move hw rfl ?_ (fun task' => rfl) fun task' => rfl
    simp only [State.setWorker, Worker.active, Bool.toNat_true, Bool.toNat_false]
    omega
  | start task hw =>
    refine h.move hw rfl rfl (fun task' => rfl) fun task' => ?_
    show (s.started ++ [task]).count task' + _ + _ = _ + s.finished.count task' + _
    rw [count_concat]
    simp only [Worker.runs, Option.none_beq_some, Bool.toNat_false]
    omega
  | finish task hw =>
    refine h.move hw rfl rfl (fun task' => ?_) fun task' => ?_
    · show s.dequeued.count task' + _ + _ = _ + (s.finished ++ [task]).count task' + _
      rw [count_concat]
      simp only [Worker.hand, Option.none_beq_some, Bool.toNat_false]
      omega
    · show s.started.count task' + _ + _ = _ + (s.finished ++ [task]).count task' + _
      rw [count_concat]
      simp only [Worker.runs, Option.none_beq_some, Bool.toNat_false]
      omega
  | depart before hw =>
    refine h.move hw rfl ?_ (fun task' => rfl) fun task' => rfl
    simp only [State.setWorker, Worker.active, Bool.toNat_true, Bool.toNat_false]
    omega
  | testActive hw =>
    refine h.pass hw rfl ?_ ?_ ?_ rfl rfl rfl rfl <;> split <;> rfl
  | testPending hw =>
    refine h.pass hw rfl ?_ ?_ ?_ rfl rfl rfl rfl <;> split <;> rfl
  | notify hw =>
    exact h.pass hw rfl rfl rfl rfl rfl rfl rfl rfl

/-- **Every step keeps count of the tasks.** -/
theorem Execution.step {a : Action n} (h : Execution s) (hstep : step s a = some t) :
    Execution t := by
  cases a with
  | work w outcome => exact h.work hstep
  | wakeWorker w =>
    obtain ⟨hw, rfl⟩ := wakeWorker_cases hstep
    exact h.pass hw rfl rfl rfl rfl rfl rfl rfl rfl
  | enqueue p =>
    cases enqueue_cases hstep <;>
      exact h.congr (fun w => ⟨rfl, rfl, rfl⟩) rfl rfl rfl rfl
  | notifyOne p w =>
    obtain ⟨task, hp, hw⟩ := notifyOne_cases hstep
    rcases hw with ⟨-, -, rfl⟩ | ⟨v, -, hwaiting, rfl⟩
    · exact h.congr (fun w => ⟨rfl, rfl, rfl⟩) rfl rfl rfl rfl
    · exact h.pass hwaiting rfl rfl rfl rfl rfl rfl rfl rfl
  | wait v =>
    cases wait_cases hstep <;>
      exact h.congr (fun w => ⟨rfl, rfl, rfl⟩) rfl rfl rfl rfl
  | wakeWaiter v =>
    obtain ⟨before, hv, rfl⟩ := wakeWaiter_cases hstep
    exact h.congr (fun w => ⟨rfl, rfl, rfl⟩) rfl rfl rfl rfl
  | stop =>
    cases stop_cases hstep with
    | notify hstop => exact h.congr (fun w => (s.workers w).wake_congr) rfl rfl rfl rfl
    | _ => exact h.congr (fun w => ⟨rfl, rfl, rfl⟩) rfl rfl rfl rfl

end Execution

/-! ### Stopping -/

/-- The places in `stop` where `stop_` has been set. -/
def Stopper.set : Stopper → Bool
  | .stopped | .notifying | .joining _ | .returned => true
  | _ => false

/-- How many of the `n` workers have been joined. -/
def Stopper.joined (n : ℕ) : Stopper → ℕ
  | .joining k => k
  | .returned => n
  | _ => 0

/-- A worker leaves its loop only when the pool is stopped and the queue is empty, and
`stop` returns only when all of them have. -/
structure Shutdown (s : State n) : Prop where
  flag : s.stop = s.stopper.set
  drained : ∀ w, s.workers w = .returned → s.stop = true ∧ s.tasks = []
  joined : ∀ w : Fin n, w < s.stopper.joined n → s.workers w = .returned

section Shutdown

variable {s t : State n}

theorem Worker.wake_eq_returned (place : Worker) : place.wake = .returned ↔ place = .returned := by
  cases place <;> simp [Worker.wake]

/-- The thread in `stop` stays where it is, and no worker comes back to its loop. -/
theorem Shutdown.congr (h : Shutdown s) (hstopper : t.stopper = s.stopper) (hstop : t.stop = s.stop)
    (hstill : ∀ w, s.workers w = .returned → t.workers w = .returned)
    (hnew : ∀ w, t.workers w = .returned → s.workers w = .returned ∨
      s.stop = true ∧ s.tasks = [])
    (htasks : s.stop = true → s.tasks = [] → t.tasks = []) : Shutdown t := by
  refine ⟨?_, ?_, ?_⟩
  · rw [hstopper, hstop]
    exact h.flag
  · intro w hw
    have hdrained : s.stop = true ∧ s.tasks = [] := (hnew w hw).elim (h.drained w) id
    rw [hstop]
    exact ⟨hdrained.1, htasks hdrained.1 hdrained.2⟩
  · intro w hw
    rw [hstopper] at hw
    exact hstill w (h.joined w hw)

/-- One worker moves. -/
theorem Shutdown.move {w : Fin n} {place : Worker} (h : Shutdown s)
    (hw : s.workers w ≠ .returned) (hworkers : ∀ w', t.workers w' =
      if w' = w then place else s.workers w')
    (hplace : place = .returned → s.stop = true ∧ s.tasks = [])
    (hstopper : t.stopper = s.stopper) (hstop : t.stop = s.stop)
    (htasks : s.stop = true → s.tasks = [] → t.tasks = []) : Shutdown t := by
  refine h.congr hstopper hstop ?_ ?_ htasks
  · intro w' hw'
    have hne : w' ≠ w := fun heq => hw (heq ▸ hw')
    rw [hworkers, if_neg hne, hw']
  · intro w' hw'
    rw [hworkers] at hw'
    split at hw'
    · exact .inr (hplace hw')
    · exact .inl hw'

theorem Shutdown.work {w : Fin n} {outcome : Outcome} (h : Shutdown s)
    (hstep : work s w outcome = some t) : Shutdown t := by
  have hpass : ∀ {place place' : Worker}, s.workers w = place' → place' ≠ .returned →
      place ≠ .returned → ∀ {t : State n}, t.workers = Function.update s.workers w place →
      t.stopper = s.stopper → t.stop = s.stop → (s.tasks = [] → t.tasks = []) → Shutdown t := by
    intro place place' hw hold hnew t hworkers hstopper hstop htasks
    refine h.move (hw ▸ hold) (fun w' => ?_) (fun heq => absurd heq hnew) hstopper hstop
      fun _ => htasks
    rw [hworkers, Function.update_apply]
  cases work_cases hstep with
  | lock hw hfree => exact hpass hw (by decide) (by decide) rfl rfl rfl id
  | park hw => exact hpass hw (by decide) (by decide) rfl rfl rfl id
  | leave hw hstop htasks =>
    refine h.move (by rw [hw]; decide) (workers_setWorker _ w .returned) ?_ rfl rfl fun _ => id
    exact fun _ => ⟨hstop, htasks⟩
  | pop task tasks hw htasks =>
    refine hpass hw (by decide) (by simp) rfl rfl rfl fun hnil => ?_
    rw [hnil] at htasks
    cases htasks
  | block hw => exact hpass hw (by decide) (by decide) rfl rfl rfl id
  | count task hw => exact hpass hw (by simp) (by simp) rfl rfl rfl id
  | take task hw => exact hpass hw (by simp) (by simp) rfl rfl rfl id
  | enter task hw => exact hpass hw (by simp) (by simp) rfl rfl rfl id
  | start task hw => exact hpass hw (by simp) (by simp) rfl rfl rfl id
  | finish task hw => exact hpass hw (by simp) (by simp) rfl rfl rfl id
  | depart before hw => exact hpass hw (by simp) (by simp) rfl rfl rfl id
  | testActive hw => exact hpass hw (by simp) (by split <;> simp) rfl rfl rfl id
  | testPending hw => exact hpass hw (by simp) (by split <;> simp) rfl rfl rfl id
  | notify hw => exact hpass hw (by simp) (by simp) rfl rfl rfl id

theorem Shutdown.enqueue {p : ℕ} (h : Shutdown s) (hstep : enqueue s p = some t) :
    Shutdown t := by
  cases enqueue_cases hstep with
  | push hp hstop =>
    refine h.congr rfl rfl (fun w => id) (fun w => .inl) ?_
    rw [hstop]
    exact fun heq => absurd heq (by decide)
  | _ => exact h.congr rfl rfl (fun w => id) (fun w => .inl) fun _ => id

theorem Shutdown.stop (h : Shutdown s) (hstep : stop s = some t) : Shutdown t := by
  -- before the place changes, the flag says whether the pool was stopped
  have hflag := h.flag
  have hjoined := h.joined
  cases stop_cases hstep with
  | again hstop hset =>
    rw [hstop, hset] at hflag
    cases hflag
  | call hstop hset =>
    rw [hstop] at hflag
    exact ⟨hflag, h.drained, fun w hw => absurd hw (Nat.not_lt_zero _)⟩
  | lock hstop hfree =>
    rw [hstop] at hflag
    exact ⟨hflag, h.drained, fun w hw => absurd hw (Nat.not_lt_zero _)⟩
  | set hstop =>
    exact ⟨rfl, fun w hw => ⟨rfl, (h.drained w hw).2⟩, fun w hw => absurd hw (Nat.not_lt_zero _)⟩
  | unlock hstop =>
    rw [hstop] at hflag
    exact ⟨hflag, h.drained, fun w hw => absurd hw (Nat.not_lt_zero _)⟩
  | notify hstop =>
    rw [hstop] at hflag
    refine ⟨hflag, ?_, fun w hw => absurd hw (Nat.not_lt_zero _)⟩
    intro w hw
    exact h.drained w ((s.workers w).wake_eq_returned.mp hw)
  | join k hk hstop hw =>
    rw [hstop] at hflag hjoined
    refine ⟨hflag, h.drained, ?_⟩
    intro w' hw'
    rcases Nat.lt_succ_iff_lt_or_eq.mp hw' with hlt | heq
    · exact hjoined w' hlt
    · obtain rfl : w' = ⟨k, hk⟩ := Fin.ext heq
      exact hw
  | leave k hk hstop =>
    rw [hstop] at hflag hjoined
    exact ⟨hflag, h.drained, fun w _ => hjoined w (Nat.lt_of_lt_of_le w.isLt (Nat.not_lt.mp hk))⟩

/-- **Every step keeps the shutdown in order.** -/
theorem Shutdown.step {a : Action n} (h : Shutdown s) (hstep : step s a = some t) :
    Shutdown t := by
  cases a with
  | work w outcome => exact h.work hstep
  | wakeWorker w =>
    obtain ⟨hw, rfl⟩ := wakeWorker_cases hstep
    exact h.move (by rw [hw]; decide) (workers_setWorker s w .top)
      (fun heq => absurd heq (by decide)) rfl rfl fun _ => id
  | enqueue p => exact h.enqueue hstep
  | notifyOne p w =>
    obtain ⟨task, hp, hw⟩ := notifyOne_cases hstep
    rcases hw with ⟨-, -, rfl⟩ | ⟨v, -, hwaiting, rfl⟩
    · exact h.congr rfl rfl (fun w => id) (fun w => .inl) fun _ => id
    · exact h.move (by rw [hwaiting]; decide) (workers_setWorker _ v .top)
        (fun heq => absurd heq (by decide)) rfl rfl fun _ => id
  | wait v =>
    cases wait_cases hstep <;>
      exact h.congr rfl rfl (fun w => id) (fun w => .inl) fun _ => id
  | wakeWaiter v =>
    obtain ⟨before, hv, rfl⟩ := wakeWaiter_cases hstep
    exact h.congr rfl rfl (fun w => id) (fun w => .inl) fun _ => id
  | stop => exact h.stop hstep

end Shutdown

/-! ### Every accepted task is executed -/

/-- What holds in every state of the pool. -/
structure Sound (s : State n) : Prop where
  guarded : Guarded s
  queued : Queued s
  execution : Execution s
  shutdown : Shutdown s

theorem sound_init : Sound ({} : State n) where
  guarded := guarded_init
  queued :=
    ⟨rfl, rfl, fun _ _ h => (by cases h), fun _ h => (by cases h), fun _ _ h => (by cases h)⟩
  execution := by
    have hcensus : ∀ kind : Worker → Bool, kind .top = false →
        census (fun _ : Fin n => Worker.top) kind = 0 :=
      fun kind hkind => census_eq_zero.mpr fun _ => hkind
    refine ⟨?_, fun task => ?_, fun task => ?_⟩
    · exact congrArg Nat.cast (hcensus Worker.active rfl).symm
    · rw [hcensus (fun place => place.hand == some task) rfl]
      rfl
    · rw [hcensus (fun place => place.runs == some task) rfl]
      rfl
  shutdown := ⟨rfl, fun _ h => (by cases h), fun _ h => absurd h (Nat.not_lt_zero _)⟩

theorem Sound.step {s t : State n} {a : Action n} (h : Sound s) (hstep : step s a = some t) :
    Sound t :=
  ⟨h.guarded.step hstep, h.queued.step hstep, h.execution.step hstep, h.shutdown.step hstep⟩

theorem sound_of_exec {as : List (Action n)} {s : State n}
    (hrun : (threadPool n).exec (threadPool n).init as = some s) : Sound s :=
  System.reachable_invariant sound_init (fun _ _ _ => Sound.step) hrun

section Execution

variable {s : State n}

theorem Queued.nodup (h : Queued s) : s.enqueued.Nodup := h.numbered ▸ List.nodup_range

theorem Queued.count_dequeued_le (h : Queued s) (task : Task) : s.dequeued.count task ≤ 1 := by
  have hcount := List.nodup_iff_count_le_one.mp h.nodup task
  rw [h.order, List.count_append] at hcount
  omega

/-- A task is started at most once. -/
theorem Sound.count_started_le (h : Sound s) (task : Task) : s.started.count task ≤ 1 := by
  have hwider : census s.workers (fun place => place.runs == some task) ≤
      census s.workers fun place => place.hand == some task := by
    refine census_mono ?_
    intro place hplace
    cases place <;> simp_all [Worker.runs, Worker.hand]
  have hhand := h.execution.hand task
  have hruns := h.execution.runs task
  have hle := h.queued.count_dequeued_le task
  omega

/-- When all workers have left their loops, every task put into the queue was started and
finished, once. -/
theorem Sound.executed (h : Sound s) (hn : 0 < n) (hall : ∀ w, s.workers w = .returned)
    {task : Task} (htask : task ∈ s.enqueued) :
    s.started.count task = 1 ∧ s.finished.count task = 1 := by
  have htasks : s.tasks = [] := (h.shutdown.drained ⟨0, hn⟩ (hall _)).2
  have hdequeued : s.dequeued.count task = 1 := by
    have hmem : task ∈ s.dequeued := by
      rw [h.queued.order, htasks, List.append_nil] at htask
      exact htask
    have hpos := List.count_pos_iff.mpr hmem
    have hle := h.queued.count_dequeued_le task
    omega
  have hhand : census s.workers (fun place => place.hand == some task) = 0 :=
    census_eq_zero.mpr fun w => by rw [hall w]; rfl
  have hruns : census s.workers (fun place => place.runs == some task) = 0 :=
    census_eq_zero.mpr fun w => by rw [hall w]; rfl
  have := h.execution.hand task
  have := h.execution.runs task
  omega

/-- A stopped pool takes no more tasks. -/
theorem enqueued_of_stopped {s u : State n} {as : List (Action n)} (hstop : s.stop = true)
    (hrun : (threadPool n).exec s as = some u) : u.enqueued = s.enqueued := by
  have hkeep : ∀ (v : State n) (a : Action n) (v' : State n),
      v.stop = true ∧ v.enqueued = s.enqueued → step v a = some v' →
      v'.stop = true ∧ v'.enqueued = s.enqueued := by
    intro v a v' hv hstep
    cases a with
    | work w outcome => cases work_cases hstep <;> exact hv
    | wakeWorker w => exact (wakeWorker_cases hstep).2 ▸ hv
    | enqueue p =>
      cases enqueue_cases hstep with
      | push hp hopen =>
        rw [hv.1] at hopen
        cases hopen
      | _ => exact hv
    | notifyOne p w =>
      obtain ⟨task, -, hw⟩ := notifyOne_cases hstep
      rcases hw with ⟨-, -, rfl⟩ | ⟨w, -, -, rfl⟩ <;> exact hv
    | wait w => cases wait_cases hstep <;> exact hv
    | wakeWaiter w =>
      obtain ⟨before, -, rfl⟩ := wakeWaiter_cases hstep
      exact hv
    | stop =>
      cases stop_cases hstep with
      | set hset => exact ⟨rfl, hv.2⟩
      | _ => exact hv
  exact (System.exec_invariant (I := fun v => v.stop = true ∧ v.enqueued = s.enqueued) hkeep
    ⟨hstop, rfl⟩ hrun).2

/-- **The pool executes every task it accepts, once**: tasks leave the queue in the order in
which they came; none is started twice; when `stop` has returned, each task whose `enqueue`
returned was started and is finished; a stopped pool takes no more tasks; and whenever
`queue_mutex_` is free, `pending_tasks_` is the size of the queue. -/
theorem threadPool_executes (n : ℕ) (hn : 0 < n) (as : List (Action n)) (s : State n)
    (hrun : (threadPool n).exec (threadPool n).init as = some s) :
    s.enqueued = s.dequeued ++ s.tasks ∧ s.enqueued.Nodup ∧
      (∀ task ∈ s.accepted, task ∈ s.enqueued) ∧
      (∀ task, s.started.count task ≤ 1) ∧
      (s.stopper = .returned → ∀ task ∈ s.accepted,
        s.started.count task = 1 ∧ s.finished.count task = 1) ∧
      (s.stop = true → ∀ bs u, (threadPool n).exec s bs = some u → u.enqueued = s.enqueued) ∧
      (s.queueMutex = none → s.pendingTasks = s.tasks.length) := by
  have h := sound_of_exec hrun
  refine ⟨h.queued.order, h.queued.nodup, h.queued.accepted, h.count_started_le, ?_, ?_, ?_⟩
  · intro hreturned task htask
    refine h.executed hn ?_ (h.queued.accepted task htask)
    intro w
    refine h.shutdown.joined w ?_
    rw [hreturned]
    exact w.isLt
  · intro hstop bs u hmore
    exact enqueued_of_stopped hstop hmore
  · intro hfree
    have hpending := h.guarded.pending
    rw [hfree, Option.elim_none] at hpending
    omega

/-- A call of `enqueue` that finds the pool running and no worker blocked. -/
def enqueueCall (p : ℕ) : List (Action n) :=
  List.replicate 5 (.enqueue p) ++ [.notifyOne p none]

/-- A worker takes a task off the queue, executes it and counts itself out. -/
def executeTask (w : Fin n) : List (Action n) := List.replicate 8 (.work w .returned)

/-- The worker of a pool that has one. -/
def onlyWorker : Fin 1 := 0

/-- One task is executed; then the pool is stopped, and its worker leaves its loop. -/
def sampleExecution : List (Action 1) :=
  enqueueCall 0 ++ executeTask onlyWorker ++ List.replicate 3 (.work onlyWorker .returned) ++
    List.replicate 5 .stop ++ List.replicate 2 (.work onlyWorker .returned) ++
    List.replicate 2 .stop

theorem threadPool_executes_sample : ∃ (as : List (Action 1)) (s : State 1),
    (threadPool 1).exec (threadPool 1).init as = some s ∧ s.stopper = .returned ∧
      s.accepted = [0] ∧ s.started.count 0 = 1 ∧ s.finished.count 0 = 1 := by
  obtain ⟨s, hrun, htest⟩ := (threadPool 1).exists_exec_of_any (threadPool 1).init sampleExecution
    (fun s => s.stopper = .returned ∧ s.accepted = [0]) (by decide +kernel)
  obtain ⟨hreturned, haccepted⟩ := of_decide_eq_true htest
  obtain ⟨-, -, -, -, hdone, -, -⟩ := threadPool_executes 1 (by decide) sampleExecution s hrun
  exact ⟨sampleExecution, s, hrun, hreturned, haccepted,
    hdone hreturned 0 (by rw [haccepted]; exact List.mem_singleton_self 0)⟩

end Execution

end ThreadPool
