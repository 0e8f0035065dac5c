import Mathlib.Data.Int.Notation
import RpcFramework.Lib.Transition

/-!
# The thread pool

The workers of a `ThreadPool`, the threads that call `enqueue` and `waitForCompletion`, and
the one that calls `stop`.  What a thread does between two places of its code is one step:
locking and unlocking `queue_mutex_`, a test, an update of the queue or of an atomic
variable, a notification, blocking on a condition variable, the beginning and the end of a
task.  Any thread may take the next step.

A task is known by its place in the order in which the tasks were put into the queue.

## Main definitions

* `Worker`, `Producer`, `Waiter`, `Stopper` — the places in the code.
* `threadPool` — the transition system.
* `ThreadPool.Works`, `ThreadPool.Enqueues`, `ThreadPool.Waits`, `ThreadPool.Stops` — what a
  step of each thread does, with what it has tested.

## Main results

* `ThreadPool.work_cases`, `ThreadPool.enqueue_cases`, `ThreadPool.wait_cases`,
  `ThreadPool.stop_cases` — **every step is one of these.**
-/

namespace ThreadPool

/-- The number of a task. -/
abbrev Task := ℕ

/-- How a task ends; a worker catches whatever is thrown. -/
inductive Outcome where
  | returned
  | exception (what : String)
  | unknownException
  deriving DecidableEq, Repr

/-- Where a worker is in its loop. -/
inductive Worker where
  /-- Before `queue_mutex_` is locked, at the top of the loop or back from a wait. -/
  | top
  | locked
  /-- The predicate of the wait was false. -/
  | parking
  /-- Blocked in `condition_`. -/
  | waiting
  | popped (task : Task)
  | counted (task : Task)
  /-- `queue_mutex_` is unlocked, and `active_threads_` is not incremented yet. -/
  | taken (task : Task)
  | entered (task : Task)
  | running (task : Task)
  | ended (outcome : Outcome)
  | decremented
  /-- `active_threads_` was seen to be zero. -/
  | drained
  | notifying
  | returned
  deriving DecidableEq, Repr

/-- Where a thread is in a call of `enqueue`. -/
inductive Producer where
  | outside
  | entering
  | locked
  | pushed (task : Task)
  | counted (task : Task)
  | notifying (task : Task)
  deriving DecidableEq, Repr

/-- Where a thread is in a call of `waitForCompletion`, with the tasks whose `enqueue` had
returned when the call began. -/
inductive Waiter where
  | outside
  | entering (before : List Task)
  | locked (before : List Task)
  /-- The predicate of the wait was false. -/
  | parking (before : List Task)
  /-- Blocked in `finished_condition_`. -/
  | blocked (before : List Task)
  deriving DecidableEq, Repr

/-- Where the thread that stops the pool is in `stop`. -/
inductive Stopper where
  | outside
  | entering
  | locked
  | stopped
  | notifying
  /-- Joining the worker of this number. -/
  | joining (worker : ℕ)
  | returned
  deriving DecidableEq, Repr

/-- The threads that lock `queue_mutex_`. -/
inductive Thread (n : ℕ) where
  | worker (w : Fin n)
  | producer (p : ℕ)
  | waiter (v : ℕ)
  | stopper
  deriving DecidableEq, Repr

structure State (n : ℕ) where
  tasks : List Task := []
  queueMutex : Option (Thread n) := none
  stop : Bool := false
  /-- The counters are `size_t`s; below zero they would have wrapped around. -/
  activeThreads : ℤ := 0
  pendingTasks : ℤ := 0
  workers : Fin n → Worker := fun _ => .top
  producers : ℕ → Producer := fun _ => .outside
  waiters : ℕ → Waiter := fun _ => .outside
  stopper : Stopper := .outside
  /-- The tasks in the order in which they were put into the queue.  No step reads this or
  what follows, but for the number of a new task and the record of a waiter. -/
  enqueued : List Task := []
  /-- The tasks in the order in which they were taken off the queue. -/
  dequeued : List Task := []
  started : List Task := []
  finished : List Task := []
  /-- The tasks whose `enqueue` has returned. -/
  accepted : List Task := []
  /-- For every `waitForCompletion` that has returned, the tasks whose `enqueue` had
  returned before the call, and those finished by its end. -/
  waited : List (List Task × List Task) := []

inductive Action (n : ℕ) where
  /-- The next step of a worker; if it ends a task, that ends so. -/
  | work (w : Fin n) (outcome : Outcome)
  /-- A blocked thread wakes up without being notified. -/
  | wakeWorker (w : Fin n)
  | enqueue (p : ℕ)
  /-- `notify_one` of a producer wakes this worker, if any is blocked. -/
  | notifyOne (p : ℕ) (w : Option (Fin n))
  | wait (v : ℕ)
  | wakeWaiter (v : ℕ)
  | stop
  deriving DecidableEq, Repr

variable {n : ℕ}

def State.setWorker (s : State n) (w : Fin n) (place : Worker) : State n :=
  { s with workers := Function.update s.workers w place }

def State.setProducer (s : State n) (p : ℕ) (place : Producer) : State n :=
  { s with producers := Function.update s.producers p place }

def State.setWaiter (s : State n) (v : ℕ) (place : Waiter) : State n :=
  { s with waiters := Function.update s.waiters v place }

theorem workers_setWorker (s : State n) (w : Fin n) (place : Worker) (w' : Fin n) :
    (s.setWorker w place).workers w' = if w' = w then place else s.workers w' :=
  Function.update_apply s.workers w place w'

theorem producers_setProducer (s : State n) (p : ℕ) (place : Producer) (p' : ℕ) :
    (s.setProducer p place).producers p' = if p' = p then place else s.producers p' :=
  Function.update_apply s.producers p place p'

theorem waiters_setWaiter (s : State n) (v : ℕ) (place : Waiter) (v' : ℕ) :
    (s.setWaiter v place).waiters v' = if v' = v then place else s.waiters v' :=
  Function.update_apply s.waiters v place v'

/-- Locking `queue_mutex_`: the thread goes on if it is free. -/
def State.lock (s : State n) (thread : Thread n) : Option (State n) :=
  if s.queueMutex = none then some { s with queueMutex := some thread } else none

def State.unlock (s : State n) : State n := { s with queueMutex := none }

/-- Back from `condition_`. -/
def Worker.wake : Worker → Worker
  | .waiting => .top
  | place => place

/-- Back from `finished_condition_`. -/
def Waiter.wake : Waiter → Waiter
  | .blocked before => .entering before
  | place => place

/-- The next step of a worker. -/
def work (s : State n) (w : Fin n) (outcome : Outcome) : Option (State n) :=
  match s.workers w with
  | .top => (s.lock (.worker w)).map fun s => s.setWorker w .locked
  | .locked =>
      if ¬ (s.stop = true ∨ s.tasks ≠ []) then some (s.setWorker w .parking)
      else if s.stop = true ∧ s.tasks = [] then some (s.unlock.setWorker w .returned)
      else
        match s.tasks with
        | [] => none
        | task :: tasks =>
            some ({ s with tasks := tasks, dequeued := s.dequeued ++ [task] }.setWorker w
              (.popped task))
  | .parking => some (s.unlock.setWorker w .waiting)
  | .waiting => none
  | .popped task =>
      some ({ s with pendingTasks := s.pendingTasks - 1 }.setWorker w (.counted task))
  | .counted task => some (s.unlock.setWorker w (.taken task))
  | .taken task =>
      some ({ s with activeThreads := s.activeThreads + 1 }.setWorker w (.entered task))
  | .entered task => some ({ s with started := s.started ++ [task] }.setWorker w (.running task))
  | .running task => some ({ s with finished := s.finished ++ [task] }.setWorker w (.ended outcome))
  | .ended _ => some ({ s with activeThreads := s.activeThreads - 1 }.setWorker w .decremented)
  | .decremented => some (s.setWorker w (if s.activeThreads = 0 then .drained else .top))
  | .drained => some (s.setWorker w (if s.pendingTasks = 0 then .notifying else .top))
  | .notifying => some ({ s with waiters := fun v => (s.waiters v).wake }.setWorker w .top)
  | .returned => none

/-- The next step of a thread in `enqueue`, but for the notification. -/
def enqueue (s : State n) (p : ℕ) : Option (State n) :=
  match s.producers p with
  | .outside => some (s.setProducer p .entering)
  | .entering => (s.lock (.producer p)).map fun s => s.setProducer p .locked
  | .locked =>
      -- a stopped pool throws
      if s.stop = true then some (s.unlock.setProducer p .outside)
      else
        let task := s.enqueued.length
        some ({ s with tasks := s.tasks ++ [task], enqueued := s.enqueued ++ [task] }.setProducer p
          (.pushed task))
  | .pushed task =>
      some ({ s with pendingTasks := s.pendingTasks + 1 }.setProducer p (.counted task))
  | .counted task => some (s.unlock.setProducer p (.notifying task))
  | .notifying _ => none

/-- `notify_one` wakes one of the workers in `condition_`, and `enqueue` returns. -/
def notifyOne (s : State n) (p : ℕ) (w : Option (Fin n)) : Option (State n) :=
  match s.producers p with
  | .notifying task =>
      let s' := { s with accepted := s.accepted ++ [task] }.setProducer p .outside
      match w with
      | none => if ∀ w, s.workers w ≠ .waiting then some s' else none
      | some w => if s.workers w = .waiting then some (s'.setWorker w .top) else none
  | _ => none

/-- The next step of a thread in `waitForCompletion`. -/
def wait (s : State n) (v : ℕ) : Option (State n) :=
  match s.waiters v with
  | .outside => some (s.setWaiter v (.entering s.accepted))
  | .entering before => (s.lock (.waiter v)).map fun s => s.setWaiter v (.locked before)
  | .locked before =>
      if s.tasks = [] ∧ s.activeThreads = 0 then
        some ({ s with waited := (before, s.finished) :: s.waited }.unlock.setWaiter v .outside)
      else some (s.setWaiter v (.parking before))
  | .parking before => some (s.unlock.setWaiter v (.blocked before))
  | .blocked _ => none

/-- The next step of the thread in `stop`. -/
def stop (s : State n) : Option (State n) :=
  match s.stopper with
  | .outside =>
      if s.stop = true then some { s with stopper := .returned }
      else some { s with stopper := .entering }
  | .entering => (s.lock .stopper).map fun s => { s with stopper := .locked }
  | .locked => some { s with stop := true, stopper := .stopped }
  | .stopped => some { s.unlock with stopper := .notifying }
  | .notifying =>
      some { s with workers := fun w => (s.workers w).wake, stopper := .joining 0 }
  | .joining k =>
      if h : k < n then
        if s.workers ⟨k, h⟩ = .returned then some { s with stopper := .joining (k + 1) } else none
      else some { s with stopper := .returned }
  | .returned => none

def step (s : State n) : Action n → Option (State n)
  | .work w outcome => work s w outcome
  | .wakeWorker w => if s.workers w = .waiting then some (s.setWorker w .top) else none
  | .enqueue p => enqueue s p
  | .notifyOne p w => notifyOne s p w
  | .wait v => wait s v
  | .wakeWaiter v =>
      match s.waiters v with
      | .blocked before => some (s.setWaiter v (.entering before))
      | _ => none
  | .stop => stop s

end ThreadPool

/-- A pool of `n` workers, from its construction on. -/
def threadPool (n : ℕ) : System (ThreadPool.State n) (ThreadPool.Action n) where
  init := {}
  step := ThreadPool.step

namespace ThreadPool

variable {n : ℕ}

/-! ### What a worker's step does -/

/-- The steps of a worker, with what each of them has tested. -/
inductive Works (s : State n) (w : Fin n) (outcome : Outcome) : State n → Prop where
  | lock (hw : s.workers w = .top) (hfree : s.queueMutex = none) :
      Works s w outcome ({ s with queueMutex := some (.worker w) }.setWorker w .locked)
  | park (hw : s.workers w = .locked) (hstop : s.stop = false) (htasks : s.tasks = []) :
      Works s w outcome (s.setWorker w .parking)
  | leave (hw : s.workers w = .locked) (hstop : s.stop = true) (htasks : s.tasks = []) :
      Works s w outcome (s.unlock.setWorker w .returned)
  | pop (task : Task) (tasks : List Task) (hw : s.workers w = .locked)
      (htasks : s.tasks = task :: tasks) :
      Works s w outcome
        ({ s with tasks := tasks, dequeued := s.dequeued ++ [task] }.setWorker w (.popped task))
  | block (hw : s.workers w = .parking) : Works s w outcome (s.unlock.setWorker w .waiting)
  | count (task : Task) (hw : s.workers w = .popped task) :
      Works s w outcome ({ s with pendingTasks := s.pendingTasks - 1 }.setWorker w (.counted task))
  | take (task : Task) (hw : s.workers w = .counted task) :
      Works s w outcome (s.unlock.setWorker w (.taken task))
  | enter (task : Task) (hw : s.workers w = .taken task) :
      Works s w outcome
        ({ s with activeThreads := s.activeThreads + 1 }.setWorker w (.entered task))
  | start (task : Task) (hw : s.workers w = .entered task) :
      Works s w outcome ({ s with started := s.started ++ [task] }.setWorker w (.running task))
  | finish (task : Task) (hw : s.workers w = .running task) :
      Works s w outcome ({ s with finished := s.finished ++ [task] }.setWorker w (.ended outcome))
  | depart (before : Outcome) (hw : s.workers w = .ended before) :
      Works s w outcome ({ s with activeThreads := s.activeThreads - 1 }.setWorker w .decremented)
  | testActive (hw : s.workers w = .decremented) :
      Works s w outcome (s.setWorker w (if s.activeThreads = 0 then .drained else .top))
  | testPending (hw : s.workers w = .drained) :
      Works s w outcome (s.setWorker w (if s.pendingTasks = 0 then .notifying else .top))
  | notify (hw : s.workers w = .notifying) :
      Works s w outcome ({ s with waiters := fun v => (s.waiters v).wake }.setWorker w .top)

theorem State.lock_eq_some {s t : State n} {thread : Thread n} (h : s.lock thread = some t) :
    s.queueMutex = none ∧ t = { s with queueMutex := some thread } := by
  rw [State.lock] at h
  split at h
  · next hfree => exact ⟨hfree, (Option.some.inj h).symm⟩
  · cases h

/-- **Every step of a worker is one of these.** -/
theorem work_cases {s t : State n} {w : Fin n} {outcome : Outcome}
    (h : work s w outcome = some t) : Works s w outcome t := by
  unfold work at h
  split at h
  · next hw =>
    obtain ⟨u, hlock, rfl⟩ := Option.map_eq_some_iff.mp h
    obtain ⟨hfree, rfl⟩ := State.lock_eq_some hlock
    exact .lock hw hfree
  · next hw =>
    cases htasks : s.tasks with
    | nil =>
      cases hstop : s.stop with
      | false =>
        rw [if_pos (by simp [hstop, htasks])] at h
        exact Option.some.inj h ▸ .park hw hstop htasks
      | true =>
        rw [if_neg (by simp [hstop]), if_pos ⟨hstop, htasks⟩] at h
        exact Option.some.inj h ▸ .leave hw hstop htasks
    | cons task tasks =>
      rw [if_neg (by simp [htasks]), if_neg (by simp [htasks])] at h
      split at h
      · cases h
      · next task' tasks' htasks' => exact Option.some.inj h ▸ .pop task' tasks' hw htasks'
  · next hw => exact Option.some.inj h ▸ .block hw
  · cases h
  · next task hw => exact Option.some.inj h ▸ .count task hw
  · next task hw => exact Option.some.inj h ▸ .take task hw
  · next task hw => exact Option.some.inj h ▸ .enter task hw
  · next task hw => exact Option.some.inj h ▸ .start task hw
  · next task hw => exact Option.some.inj h ▸ .finish task hw
  · next before hw => exact Option.some.inj h ▸ .depart before hw
  · next hw => exact Option.some.inj h ▸ .testActive hw
  · next hw => exact Option.some.inj h ▸ .testPending hw
  · next hw => exact Option.some.inj h ▸ .notify hw
  · cases h

/-! ### What a step of the other threads does -/

/-- The steps of a thread in `enqueue`, but for the notification. -/
inductive Enqueues (s : State n) (p : ℕ) : State n → Prop where
  | call (hp : s.producers p = .outside) : Enqueues s p (s.setProducer p .entering)
  | lock (hp : s.producers p = .entering) (hfree : s.queueMutex = none) :
      Enqueues s p ({ s with queueMutex := some (.producer p) }.setProducer p .locked)
  | refuse (hp : s.producers p = .locked) (hstop : s.stop = true) :
      Enqueues s p (s.unlock.setProducer p .outside)
  | push (hp : s.producers p = .locked) (hstop : s.stop = false) :
      Enqueues s p
        ({ s with
          tasks := s.tasks ++ [s.enqueued.length]
          enqueued := s.enqueued ++ [s.enqueued.length] }.setProducer p
            (.pushed s.enqueued.length))
  | count (task : Task) (hp : s.producers p = .pushed task) :
      Enqueues s p ({ s with pendingTasks := s.pendingTasks + 1 }.setProducer p (.counted task))
  | unlock (task : Task) (hp : s.producers p = .counted task) :
      Enqueues s p (s.unlock.setProducer p (.notifying task))

/-- **Every step of a thread in `enqueue` is one of these.** -/
theorem enqueue_cases {s t : State n} {p : ℕ} (h : enqueue s p = some t) : Enqueues s p t := by
  unfold enqueue at h
  split at h
  · next hp => exact Option.some.inj h ▸ .call hp
  · next hp =>
    obtain ⟨u, hlock, rfl⟩ := Option.map_eq_some_iff.mp h
    obtain ⟨hfree, rfl⟩ := State.lock_eq_some hlock
    exact .lock hp hfree
  · next hp =>
    cases hstop : s.stop with
    | true =>
      rw [if_pos hstop] at h
      exact Option.some.inj h ▸ .refuse hp hstop
    | false =>
      rw [if_neg (by simp [hstop])] at h
      exact Option.some.inj h ▸ .push hp hstop
  · next task hp => exact Option.some.inj h ▸ .count task hp
  · next task hp => exact Option.some.inj h ▸ .unlock task hp
  · cases h

/-- A notification of a producer finds no worker blocked, or wakes one of them. -/
theorem notifyOne_cases {s t : State n} {p : ℕ} {w : Option (Fin n)}
    (h : notifyOne s p w = some t) :
    ∃ task, s.producers p = .notifying task ∧
      ((w = none ∧ (∀ w, s.workers w ≠ .waiting) ∧
          t = { s with accepted := s.accepted ++ [task] }.setProducer p .outside) ∨
        ∃ v, w = some v ∧ s.workers v = .waiting ∧
          t = ({ s with accepted := s.accepted ++ [task] }.setProducer p .outside).setWorker v
            .top) := by
  unfold notifyOne at h
  split at h
  · next task hp =>
    refine ⟨task, hp, ?_⟩
    cases w with
    | none =>
      obtain ⟨hnone, hback⟩ := Option.ite_none_right_eq_some.mp h
      exact .inl ⟨rfl, hnone, (Option.some.inj hback).symm⟩
    | some v =>
      obtain ⟨hv, hback⟩ := Option.ite_none_right_eq_some.mp h
      exact .inr ⟨v, rfl, hv, (Option.some.inj hback).symm⟩
  · cases h

/-- The steps of a thread in `waitForCompletion`. -/
inductive Waits (s : State n) (v : ℕ) : State n → Prop where
  | call (hv : s.waiters v = .outside) : Waits s v (s.setWaiter v (.entering s.accepted))
  | lock (before : List Task) (hv : s.waiters v = .entering before)
      (hfree : s.queueMutex = none) :
      Waits s v ({ s with queueMutex := some (.waiter v) }.setWaiter v (.locked before))
  | leave (before : List Task) (hv : s.waiters v = .locked before)
      (hdone : s.tasks = [] ∧ s.activeThreads = 0) :
      Waits s v
        ({ s with waited := (before, s.finished) :: s.waited }.unlock.setWaiter v .outside)
  | park (before : List Task) (hv : s.waiters v = .locked before)
      (hbusy : ¬ (s.tasks = [] ∧ s.activeThreads = 0)) :
      Waits s v (s.setWaiter v (.parking before))
  | block (before : List Task) (hv : s.waiters v = .parking before) :
      Waits s v (s.unlock.setWaiter v (.blocked before))

/-- **Every step of a thread in `waitForCompletion` is one of these.** -/
theorem wait_cases {s t : State n} {v : ℕ} (h : wait s v = some t) : Waits s v t := by
  unfold wait at h
  split at h
  · next hv => exact Option.some.inj h ▸ .call hv
  · next before hv =>
    obtain ⟨u, hlock, rfl⟩ := Option.map_eq_some_iff.mp h
    obtain ⟨hfree, rfl⟩ := State.lock_eq_some hlock
    exact .lock before hv hfree
  · next before hv =>
    split at h
    · next hdone => exact Option.some.inj h ▸ .leave before hv hdone
    · next hbusy => exact Option.some.inj h ▸ .park before hv hbusy
  · next before hv => exact Option.some.inj h ▸ .block before hv
  · cases h

/-- The steps of the thread in `stop`. -/
inductive Stops (s : State n) : State n → Prop where
  | again (hstop : s.stopper = .outside) (hset : s.stop = true) :
      Stops s { s with stopper := .returned }
  | call (hstop : s.stopper = .outside) (hset : s.stop = false) :
      Stops s { s with stopper := .entering }
  | lock (hstop : s.stopper = .entering) (hfree : s.queueMutex = none) :
      Stops s { s with queueMutex := some .stopper, stopper := .locked }
  | set (hstop : s.stopper = .locked) : Stops s { s with stop := true, stopper := .stopped }
  | unlock (hstop : s.stopper = .stopped) : Stops s { s.unlock with stopper := .notifying }
  | notify (hstop : s.stopper = .notifying) :
      Stops s { s with workers := fun w => (s.workers w).wake, stopper := .joining 0 }
  | join (k : ℕ) (hk : k < n) (hstop : s.stopper = .joining k)
      (hw : s.workers ⟨k, hk⟩ = .returned) : Stops s { s with stopper := .joining (k + 1) }
  | leave (k : ℕ) (hk : ¬ k < n) (hstop : s.stopper = .joining k) :
      Stops s { s with stopper := .returned }

/-- **Every step of the thread in `stop` is one of these.** -/
theorem stop_cases {s t : State n} (h : stop s = some t) : Stops s t := by
  unfold stop at h
  split at h
  · next hstop =>
    cases hset : s.stop with
    | true =>
      rw [if_pos hset] at h
      exact Option.some.inj h ▸ .again hstop hset
    | false =>
      rw [if_neg (by simp [hset])] at h
      exact Option.some.inj h ▸ .call hstop hset
  · next hstop =>
    obtain ⟨u, hlock, rfl⟩ := Option.map_eq_some_iff.mp h
    obtain ⟨hfree, rfl⟩ := State.lock_eq_some hlock
    exact .lock hstop hfree
  · next hstop => exact Option.some.inj h ▸ .set hstop
  · next hstop => exact Option.some.inj h ▸ .unlock hstop
  · next hstop => exact Option.some.inj h ▸ .notify hstop
  · next k hstop =>
    split at h
    · next hk =>
      obtain ⟨hw, hjoined⟩ := Option.ite_none_right_eq_some.mp h
      exact Option.some.inj hjoined ▸ .join k hk hstop hw
    · next hk => exact Option.some.inj h ▸ .leave k hk hstop
  · cases h

theorem wakeWorker_cases {s t : State n} {w : Fin n} (h : step s (.wakeWorker w) = some t) :
    s.workers w = .waiting ∧ t = s.setWorker w .top := by
  obtain ⟨hw, hawake⟩ := Option.ite_none_right_eq_some.mp h
  exact ⟨hw, (Option.some.inj hawake).symm⟩

theorem wakeWaiter_cases {s t : State n} {v : ℕ} (h : step s (.wakeWaiter v) = some t) :
    ∃ before, s.waiters v = .blocked before ∧ t = s.setWaiter v (.entering before) := by
  simp only [step] at h
  split at h
  · next before hv => exact ⟨before, hv, (Option.some.inj h).symm⟩
  · cases h

end ThreadPool
