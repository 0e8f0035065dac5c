import RpcFramework.Common.Execution

/-!
# Waiting for completion

`waitForCompletion` returns when it sees the queue empty and `active_threads_` at zero.  A
worker that has unlocked `queue_mutex_` with a task and not counted itself up yet is in
neither; and a worker notifies the threads that wait without locking their mutex.

## Main definitions

* `ThreadPool.Settled` — a call returns only while no task of its is on the way to a worker.
* `ThreadPool.Prompt` — a notification that a thread misses is not the last one.

## Main results

* `ThreadPool.threadPool_waits_iff` — **when the tasks accepted before a call are finished at
  its return.**
* `ThreadPool.threadPool_wakes` — **when no thread waits for a notification that was given.**
-/

namespace ThreadPool

variable {n : ℕ}

/-! ### What a return says -/

/-- Whenever a call of `waitForCompletion` returned, the tasks accepted before the call were
finished. -/
def Waited (s : State n) : Prop := ∀ call ∈ s.waited, ∀ task ∈ call.1, task ∈ call.2

/-- The tasks accepted before the call that returns with this step. -/
def returning (s : State n) : Action n → List Task
  | .wait v =>
      match s.waiters v with
      | .locked before => if s.tasks = [] ∧ s.activeThreads = 0 then before else []
      | _ => []
  | _ => []

/-- No worker has taken such a task without having incremented `active_threads_` for it. -/
def Settled (s : State n) (a : Action n) : Prop :=
  ∀ task ∈ returning s a, ∀ w, s.workers w ≠ .taken task

instance (s : State n) (a : Action n) : Decidable (Settled s a) :=
  inferInstanceAs (Decidable (∀ task ∈ returning s a, ∀ w, s.workers w ≠ .taken task))

section Settled

variable {s t : State n}

/-- A worker with a task in its hand that is not counted and has no lock has just taken it. -/
theorem Worker.hand_eq_some {place : Worker} {task : Task} (hactive : place.active = false)
    (hholds : place.holds = false) : place.hand = some task ↔ place = .taken task := by
  cases place <;> simp_all [Worker.active, Worker.holds, Worker.hand]

/-- Where a thread in `waitForCompletion` sees the pool idle, a task is finished unless a
worker has just taken it. -/
theorem Sound.mem_finished_iff {v : ℕ} {task : Task} (h : Sound s)
    (howner : (s.waiters v).holds = true) (hidle : s.tasks = [] ∧ s.activeThreads = 0)
    (htask : task ∈ s.enqueued) : task ∈ s.finished ↔ ∀ w, s.workers w ≠ .taken task := by
  have hinactive : ∀ w, (s.workers w).active = false := by
    have hzero : (census s.workers Worker.active : ℤ) = 0 := h.execution.active ▸ hidle.2
    exact census_eq_zero.mp (Int.ofNat_eq_zero.mp hzero)
  have hunlocked : ∀ w, (s.workers w).holds = false := by
    intro w
    by_contra hheld
    rw [Bool.not_eq_false] at hheld
    have heq : Thread.worker w = .waiter v := h.guarded.exclusive.unique hheld howner
    cases heq
  have hcensus : census s.workers (fun place => place.hand == some task) = 0 ↔
      ∀ w, s.workers w ≠ .taken task := by
    rw [census_eq_zero]
    refine forall_congr' fun w => ?_
    rw [beq_eq_false_iff_ne, ne_eq, Worker.hand_eq_some (hinactive w) (hunlocked w)]
  have hdequeued : s.dequeued.count task = 1 := by
    have hmem : task ∈ s.dequeued := by
      rw [h.queued.order, hidle.1, List.append_nil] at htask
      exact htask
    have hpos := List.count_pos_iff.mpr hmem
    have hle := h.queued.count_dequeued_le task
    omega
  have hhand := h.execution.hand task
  rw [← hcensus, ← List.count_pos_iff]
  omega

/-- What a step adds to the record of the calls that returned. -/
theorem waited_step {a : Action n} (hstep : step s a = some t) :
    (returning s a = [] ∧ t.waited = s.waited) ∨
      ∃ v, (s.waiters v).holds = true ∧ (s.tasks = [] ∧ s.activeThreads = 0) ∧
        returning s a = (s.waiters v).before ∧
        t.waited = (returning s a, s.finished) :: s.waited := by
  cases a with
  | work w outcome => cases work_cases hstep <;> exact .inl ⟨rfl, rfl⟩
  | wakeWorker w =>
    obtain ⟨-, rfl⟩ := wakeWorker_cases hstep
    exact .inl ⟨rfl, rfl⟩
  | enqueue p => cases enqueue_cases hstep <;> exact .inl ⟨rfl, rfl⟩
  | notifyOne p w =>
    obtain ⟨task, -, hw⟩ := notifyOne_cases hstep
    rcases hw with ⟨-, -, rfl⟩ | ⟨w, -, -, rfl⟩ <;> exact .inl ⟨rfl, rfl⟩
  | wait v =>
    cases wait_cases hstep with
    | call hv => exact .inl ⟨by simp only [returning, hv], rfl⟩
    | lock before hv => exact .inl ⟨by simp only [returning, hv], rfl⟩
    | leave before hv hdone =>
      have hreturning : returning s (.wait v) = before := by
        simp only [returning, hv, if_pos hdone]
      refine .inr ⟨v, by rw [hv]; rfl, hdone, ?_, ?_⟩
      · rw [hreturning, hv]
        rfl
      · rw [hreturning]
        rfl
    | park before hv hbusy => exact .inl ⟨by simp only [returning, hv, if_neg hbusy], rfl⟩
    | block before hv => exact .inl ⟨by simp only [returning, hv], rfl⟩
  | wakeWaiter v =>
    obtain ⟨before, -, rfl⟩ := wakeWaiter_cases hstep
    exact .inl ⟨rfl, rfl⟩
  | stop => cases stop_cases hstep <;> exact .inl ⟨rfl, rfl⟩

/-- A return says what it should exactly if it is settled. -/
theorem settled_iff_waited {a : Action n} (h : Sound s) (hs : Waited s)
    (hstep : step s a = some t) : Settled s a ↔ Waited t := by
  rcases waited_step hstep with ⟨hnone, hsame⟩ | ⟨v, howner, hidle, hbefore, hadded⟩
  · refine iff_of_true ?_ ?_
    · rw [Settled, hnone]
      exact fun task htask => absurd htask List.not_mem_nil
    · rw [Waited, hsame]
      exact hs
  · have hiff : ∀ task ∈ returning s a,
        (task ∈ s.finished ↔ ∀ w, s.workers w ≠ .taken task) := by
      intro task htask
      rw [hbefore] at htask
      exact h.mem_finished_iff howner hidle (h.queued.before v task htask)
    rw [Waited, hadded, List.forall_mem_cons]
    constructor
    · intro hsettled
      exact ⟨fun task htask => (hiff task htask).mpr (hsettled task htask), hs⟩
    · intro hfinished task htask
      exact (hiff task htask).mp (hfinished.1 task htask)

theorem waited_back {a : Action n} (hstep : step s a = some t) (ht : Waited t) : Waited s := by
  intro call hcall
  refine ht call ?_
  rcases waited_step hstep with ⟨-, hsame⟩ | ⟨v, -, -, -, hadded⟩
  · rw [hsame]
    exact hcall
  · rw [hadded]
    exact List.mem_cons_of_mem _ hcall

end Settled

/-- **The tasks accepted before a call of `waitForCompletion` are finished at its return**
exactly in the runs in which every return is settled. -/
theorem threadPool_waits_iff (n : ℕ) (as : List (Action n)) (s : State n)
    (hrun : (threadPool n).exec (threadPool n).init as = some s) :
    Waited s ↔
      ((threadPool n).restrict Settled).exec (threadPool n).init as = some s := by
  refine System.exec_restrict_iff_of_absorbing (I := Sound) (fun _ _ _ => Sound.step)
    (fun _ _ _ => settled_iff_waited) (fun _ _ _ _ => waited_back) sound_init ?_ hrun
  exact fun call hcall => absurd hcall List.not_mem_nil

/-- The only task is finished before the call returns. -/
theorem threadPool_waits_sample : ∃ (as : List (Action 1)) (s : State 1),
    (threadPool 1).exec (threadPool 1).init as = some s ∧ s.waited = [([0], [0])] ∧
      ((threadPool 1).restrict Settled).exec (threadPool 1).init as = some s := by
  obtain ⟨s, hrun, htest⟩ := (threadPool 1).exists_exec_of_any (threadPool 1).init
    (enqueueCall 0 ++ executeTask onlyWorker ++ List.replicate 3 (.wait 0))
    (fun s => s.waited = [([0], [0])]) (by decide +kernel)
  have hwaited : s.waited = [([0], [0])] := of_decide_eq_true htest
  refine ⟨_, s, hrun, hwaited, (threadPool_waits_iff 1 _ s hrun).mp ?_⟩
  rw [Waited, hwaited]
  decide

/-- A worker has unlocked the mutex with the only task, and does not count itself yet. -/
def sampleReturn : List (Action 1) :=
  enqueueCall 0 ++ List.replicate 4 (.work onlyWorker .returned) ++ List.replicate 3 (.wait 0)

/-- Between the two, `waitForCompletion` returns. -/
theorem sampleReturn_notWaited : ¬ ∀ (n : ℕ) (as : List (Action n)) (s : State n),
    (threadPool n).exec (threadPool n).init as = some s → Waited s := by
  intro h
  obtain ⟨s, hrun, htest⟩ := (threadPool 1).exists_exec_of_any (threadPool 1).init sampleReturn
    (fun s => s.waited = [([0], [])]) (by decide +kernel)
  have hwaited : s.waited = [([0], [])] := of_decide_eq_true htest
  have hcall := h 1 sampleReturn s hrun ([0], [])
    (by rw [hwaited]; exact List.mem_singleton_self ([0], []))
  exact absurd (hcall 0 (List.mem_singleton_self 0)) List.not_mem_nil

/-! ### What keeps a waiting thread from being forgotten -/

/-- The places in `waitForCompletion` behind a test that was false. -/
def Waiter.sleeps : Waiter → Bool
  | .parking _ | .blocked _ => true
  | _ => false

/-- The places from which a worker comes to the test of `active_threads_` and
`pending_tasks_`, or never goes to sleep again. -/
def Worker.due (stopped : Bool) : Worker → Bool
  | .parking | .waiting => false
  | .top | .locked | .returned => stopped
  | _ => true

/-- There is something to do for a worker, or one is due. -/
def Due (s : State n) : Prop := s.tasks ≠ [] ∨ ∃ w, (s.workers w).due s.stop = true

/-- The owner of the mutex is about to block in `finished_condition_`. -/
def State.parks (s : State n) : Bool :=
  match s.queueMutex with
  | some (.waiter v) => (s.waiters v).sleeps
  | _ => false

/-- A worker does not notify a thread that is between its test and its blocking, unless
there is something to do for a worker, or another one is due. -/
def Prompt (s : State n) : Action n → Prop
  | .work w _ =>
      s.workers w = .notifying ∧ s.parks = true →
        s.tasks ≠ [] ∨ s.stop = true ∨ ∃ w', w' ≠ w ∧ (s.workers w').due s.stop = true
  | _ => True

instance (s : State n) : (a : Action n) → Decidable (Prompt s a)
  | .work w _ =>
      inferInstanceAs (Decidable (s.workers w = .notifying ∧ s.parks = true →
        s.tasks ≠ [] ∨ s.stop = true ∨ ∃ w', w' ≠ w ∧ (s.workers w').due s.stop = true))
  | .wakeWorker _ | .enqueue _ | .notifyOne _ _ | .wait _ | .wakeWaiter _ | .stop =>
      inferInstanceAs (Decidable True)

/-- A thread is blocked in `finished_condition_`, the pool is idle, and nobody is going to
notify it. -/
def Stuck (s : State n) : Prop :=
  (∃ v before, s.waiters v = .blocked before) ∧ s.tasks = [] ∧ s.activeThreads = 0 ∧
    (∀ w, s.workers w = .waiting) ∧ (∀ p task, s.producers p ≠ .notifying task) ∧
    s.stopper ≠ .notifying

/-- No thread waits for a notification that was given. -/
def NoLostWakeUp (pool : System (State n) (Action n)) : Prop :=
  ∀ (as : List (Action n)) (s : State n), pool.exec pool.init as = some s → ¬ Stuck s

/-- What holds in every state of the pool if its notifications are prompt. -/
structure Watched (s : State n) : Prop where
  sound : Sound s
  /-- A producer that has not counted its task up still sees it in the queue. -/
  filled : ∀ p, (s.producers p).lead ≠ 0 → s.tasks ≠ []
  due : ∀ v, (s.waiters v).sleeps = true → Due s

section Watched

variable {s t : State n}

/-- Stopping the pool keeps whoever is due. -/
theorem Worker.due_mono {place : Worker} {stopped : Bool} (h : place.due stopped = true) :
    place.due true = true := by
  cases place <;> simp_all [Worker.due]

/-- One worker moves, and someone is due after it. -/
theorem Due.move {w : Fin n} {place : Worker} (h : Due s)
    (hworkers : ∀ w', t.workers w' = if w' = w then place else s.workers w')
    (htasks : s.tasks ≠ [] → t.tasks ≠ [] ∨ place.due s.stop = true) (hstop : t.stop = s.stop)
    (hplace : (s.workers w).due s.stop = true → place.due s.stop = true ∨ Due t) : Due t := by
  have hmoved : place.due s.stop = true → Due t := by
    intro hdue
    refine .inr ⟨w, ?_⟩
    rw [hworkers, if_pos rfl, hstop]
    exact hdue
  rcases h with hqueue | ⟨w', hw'⟩
  · exact (htasks hqueue).elim .inl hmoved
  · by_cases heq : w' = w
    · subst heq
      exact (hplace hw').elim hmoved id
    · refine .inr ⟨w', ?_⟩
      rw [hworkers, if_neg heq, hstop]
      exact hw'

theorem Due.congr (h : Due s) (htasks : s.tasks ≠ [] → t.tasks ≠ [])
    (hworkers : ∀ w, (s.workers w).due s.stop = true → (t.workers w).due t.stop = true) :
    Due t := by
  rcases h with hqueue | ⟨w, hw⟩
  · exact .inl (htasks hqueue)
  · exact .inr ⟨w, hworkers w hw⟩

/-- While `active_threads_` is not zero, a worker is due that the counter counts. -/
theorem Sound.exists_active (h : Sound s) (hactive : s.activeThreads ≠ 0) :
    ∃ w, (s.workers w).active = true := by
  by_contra hnone
  have hzero : census s.workers Worker.active = 0 := by
    refine census_eq_zero.mpr fun w => ?_
    exact Bool.eq_false_iff.mpr fun hw => hnone ⟨w, hw⟩
  exact hactive (by rw [h.execution.active, hzero]; rfl)

theorem Worker.due_of_active {place : Worker} (stopped : Bool) (h : place.active = true) :
    place.due stopped = true := by
  cases place <;> simp_all [Worker.due, Worker.active]

/-- While `pending_tasks_` is not zero, the queue is not empty, or a worker has just taken
the last task off it. -/
theorem Watched.exists_pending (h : Watched s) (hpending : s.pendingTasks ≠ 0) :
    s.tasks ≠ [] ∨ ∃ w task, s.workers w = .popped task := by
  by_contra hnone
  rw [not_or, not_not] at hnone
  obtain ⟨htasks, hnone⟩ := hnone
  have hlead : s.queueMutex.elim 0 s.lead = 0 := by
    cases howner : s.queueMutex with
    | none => rfl
    | some i =>
      rw [Option.elim_some]
      cases i with
      | worker w =>
        cases hw : s.workers w with
        | popped task => exact absurd ⟨w, task, hw⟩ hnone
        | _ => rw [State.lead, hw]; rfl
      | producer p =>
        by_contra hne
        exact h.filled p hne htasks
      | waiter v => rfl
      | stopper => rfl
  rw [h.sound.guarded.pending, htasks, hlead] at hpending
  exact hpending rfl

/-- A thread that is behind its test and keeps the mutex owns it. -/
theorem Sound.parks_of_parking (h : Sound s) {v : ℕ} {before : List Task}
    (hv : s.waiters v = .parking before) : s.parks = true := by
  have howner : s.queueMutex = some (.waiter v) :=
    h.guarded.exclusive.owner_eq (holds_waiter hv)
  rw [State.parks, howner]
  show (s.waiters v).sleeps = true
  rw [hv]
  rfl

theorem Watched.due_work {w : Fin n} {outcome : Outcome} (h : Watched s)
    (hprompt : Prompt s (.work w outcome)) (hstep : work s w outcome = some t) :
    ∀ v, (t.waiters v).sleeps = true → Due t := by
  intro v hv
  -- most steps take a worker from one place where it is due to another
  have hmove : ∀ {place : Worker} {t : State n}, (s.waiters v).sleeps = true →
      (∀ w', t.workers w' = if w' = w then place else s.workers w') →
      (s.tasks ≠ [] → t.tasks ≠ [] ∨ place.due s.stop = true) → t.stop = s.stop →
      ((s.workers w).due s.stop = true → place.due s.stop = true ∨ Due t) → Due t :=
    fun hsleeps => (h.due v hsleeps).move
  cases work_cases hstep with
  | lock hw hfree =>
    exact hmove hv (workers_setWorker _ w .locked) .inl rfl fun hdue => .inl (hw ▸ hdue :)
  | park hw hstop htasks =>
    refine hmove hv (workers_setWorker _ w .parking) .inl rfl fun hdue => ?_
    rw [hw, hstop] at hdue
    cases hdue
  | leave hw hstop htasks =>
    exact hmove hv (workers_setWorker _ w .returned) .inl rfl fun _ => .inl hstop
  | pop task tasks hw htasks =>
    exact hmove hv (workers_setWorker _ w (.popped task)) (fun _ => .inr rfl) rfl
      fun _ => .inl rfl
  | block hw =>
    refine hmove hv (workers_setWorker _ w .waiting) .inl rfl fun hdue => ?_
    rw [hw] at hdue
    cases hdue
  | count task hw =>
    exact hmove hv (workers_setWorker _ w (.counted task)) .inl rfl fun _ => .inl rfl
  | take task hw =>
    exact hmove hv (workers_setWorker _ w (.taken task)) .inl rfl fun _ => .inl rfl
  | enter task hw =>
    exact hmove hv (workers_setWorker _ w (.entered task)) .inl rfl fun _ => .inl rfl
  | start task hw =>
    exact hmove hv (workers_setWorker _ w (.running task)) .inl rfl fun _ => .inl rfl
  | finish task hw =>
    exact hmove hv (workers_setWorker _ w (.ended outcome)) .inl rfl fun _ => .inl rfl
  | depart before hw =>
    exact hmove hv (workers_setWorker _ w .decremented) .inl rfl fun _ => .inl rfl
  | testActive hw =>
    by_cases hactive : s.activeThreads = 0
    · rw [if_pos hactive] at hv ⊢
      exact hmove hv (workers_setWorker _ w .drained) .inl rfl fun _ => .inl rfl
    · obtain ⟨w', hw'⟩ := h.sound.exists_active hactive
      have hne : w' ≠ w := by
        rintro rfl
        rw [hw] at hw'
        cases hw'
      refine .inr ⟨w', ?_⟩
      rw [workers_setWorker, if_neg hne]
      exact Worker.due_of_active s.stop hw'
  | testPending hw =>
    by_cases hpending : s.pendingTasks = 0
    · rw [if_pos hpending] at hv ⊢
      exact hmove hv (workers_setWorker _ w .notifying) .inl rfl fun _ => .inl rfl
    · rcases h.exists_pending hpending with htasks | ⟨w', task, hw'⟩
      · exact .inl htasks
      · have hne : w' ≠ w := by
          rintro rfl
          rw [hw] at hw'
          cases hw'
        refine .inr ⟨w', ?_⟩
        rw [workers_setWorker, if_neg hne]
        show (s.workers w').due s.stop = true
        rw [hw']
        rfl
  | notify hw =>
    -- whoever still sleeps owned the mutex when it was notified
    have hparks : s.parks = true := by
      have hwake : (s.waiters v).wake.sleeps = true := hv
      cases hplace : s.waiters v with
      | parking before => exact h.sound.parks_of_parking hplace
      | _ =>
        rw [hplace] at hwake
        cases hwake
    rcases hprompt ⟨hw, hparks⟩ with htasks | hstop | ⟨w', hne, hdue⟩
    · exact .inl htasks
    · refine .inr ⟨w, ?_⟩
      rw [workers_setWorker, if_pos rfl]
      exact hstop
    · refine .inr ⟨w', ?_⟩
      rw [workers_setWorker, if_neg hne]
      exact hdue

theorem Watched.due_wait {v : ℕ} (h : Watched s) (hstep : wait s v = some t) :
    ∀ v', (t.waiters v').sleeps = true → Due t := by
  intro v' hv'
  have hmove : ∀ {place : Waiter} {t : State n},
      (∀ v', t.waiters v' = if v' = v then place else s.waiters v') →
      (t.waiters v').sleeps = true → (place.sleeps = true → Due s) → Due s := by
    intro place t hwaiters hsleeps hplace
    rw [hwaiters] at hsleeps
    split at hsleeps
    · exact hplace hsleeps
    · exact h.due v' hsleeps
  have hsame : Due s → t.tasks = s.tasks → t.workers = s.workers → t.stop = s.stop → Due t := by
    intro hdue htasks hworkers hstop
    refine hdue.congr (by rw [htasks]; exact id) fun w => ?_
    rw [hworkers, hstop]
    exact id
  cases wait_cases hstep with
  | call hv =>
    exact hsame (hmove (waiters_setWaiter s v _) hv' fun hsleeps => (by cases hsleeps)) rfl rfl rfl
  | lock before hv hfree =>
    exact hsame (hmove (waiters_setWaiter _ v _) hv' fun hsleeps => (by cases hsleeps)) rfl rfl rfl
  | leave before hv hdone =>
    exact hsame (hmove (waiters_setWaiter _ v _) hv' fun hsleeps => (by cases hsleeps)) rfl rfl rfl
  | park before hv hbusy =>
    refine hsame (hmove (waiters_setWaiter s v _) hv' fun _ => ?_) rfl rfl rfl
    by_cases htasks : s.tasks = []
    · obtain ⟨w, hw⟩ := h.sound.exists_active fun hactive => hbusy ⟨htasks, hactive⟩
      exact .inr ⟨w, Worker.due_of_active s.stop hw⟩
    · exact .inl htasks
  | block before hv =>
    refine hsame (hmove (waiters_setWaiter _ v _) hv' fun _ => ?_) rfl rfl rfl
    exact h.due v (by rw [hv]; rfl)

theorem Worker.due_wake {place : Worker} {stopped : Bool} (h : place.due stopped = true) :
    place.wake.due stopped = true := by
  cases place <;> simp_all [Worker.due, Worker.wake]

theorem Due.stop (h : Due s) (hstep : stop s = some t) : Due t := by
  cases stop_cases hstep with
  | set hstop => exact h.congr id fun w => Worker.due_mono
  | notify hstop => exact h.congr id fun w => Worker.due_wake
  | _ => exact h.congr id fun w => id

/-- **What a prompt step leaves to sleep, it leaves somebody due for.** -/
theorem Watched.due_step {a : Action n} (h : Watched s) (hprompt : Prompt s a)
    (hstep : step s a = some t) : ∀ v, (t.waiters v).sleeps = true → Due t := by
  cases a with
  | work w outcome => exact h.due_work hprompt hstep
  | wakeWorker w =>
    obtain ⟨hw, rfl⟩ := wakeWorker_cases hstep
    intro v hv
    refine (h.due v hv).move (workers_setWorker s w .top) .inl rfl fun hdue => ?_
    rw [hw] at hdue
    cases hdue
  | enqueue p =>
    intro v hv
    cases enqueue_cases hstep with
    | push hp hstop => exact .inl (List.append_ne_nil_of_right_ne_nil _ (List.cons_ne_nil _ _))
    | _ => exact (h.due v hv).congr id fun w => id
  | notifyOne p w =>
    obtain ⟨task, hp, hw⟩ := notifyOne_cases hstep
    intro v hv
    rcases hw with ⟨-, -, rfl⟩ | ⟨w, -, hwaiting, rfl⟩
    · exact (h.due v hv).congr id fun w => id
    · refine (h.due v hv).move (workers_setWorker _ w .top) .inl rfl fun hdue => ?_
      rw [hwaiting] at hdue
      cases hdue
  | wait v => exact h.due_wait hstep
  | wakeWaiter v =>
    obtain ⟨before, hv, rfl⟩ := wakeWaiter_cases hstep
    intro v' hv'
    rw [waiters_setWaiter] at hv'
    split at hv'
    · cases hv'
    · exact (h.due v' hv').congr id fun w => id
  | stop =>
    have hwaiters : t.waiters = s.waiters := by cases stop_cases hstep <;> rfl
    intro v hv
    rw [hwaiters] at hv
    exact (h.due v hv).stop hstep

theorem Producer.holds_of_lead {place : Producer} (h : place.lead ≠ 0) : place.holds = true := by
  cases place <;> simp_all [Producer.lead, Producer.holds]

/-- A producer that has not counted its task up keeps the mutex, and the queue its task. -/
theorem Watched.filled_step {a : Action n} (h : Watched s) (hstep : step s a = some t) :
    ∀ p, (t.producers p).lead ≠ 0 → t.tasks ≠ [] := by
  have hmove : ∀ {p : ℕ} {place : Producer} {t : State n}, place.lead = 0 →
      (∀ p', t.producers p' = if p' = p then place else s.producers p') →
      t.tasks = s.tasks → ∀ p', (t.producers p').lead ≠ 0 → t.tasks ≠ [] := by
    intro p place t hplace hproducers htasks p' hlead
    rw [hproducers] at hlead
    split at hlead
    · exact absurd hplace hlead
    · rw [htasks]
      exact h.filled p' hlead
  cases a with
  | work w outcome =>
    cases work_cases hstep with
    | pop task tasks hw htasks =>
      intro p hlead
      have heq : Thread.worker w = .producer p :=
        h.sound.guarded.exclusive.unique (holds_worker hw) (Producer.holds_of_lead hlead)
      cases heq
    | _ => exact h.filled
  | wakeWorker w =>
    obtain ⟨hw, rfl⟩ := wakeWorker_cases hstep
    exact h.filled
  | enqueue p =>
    cases enqueue_cases hstep with
    | push hp hstop =>
      exact fun _ _ => List.append_ne_nil_of_right_ne_nil _ (List.cons_ne_nil _ _)
    | call hp => exact hmove rfl (producers_setProducer s p _) rfl
    | lock hp hfree => exact hmove rfl (producers_setProducer _ p _) rfl
    | refuse hp hstop => exact hmove rfl (producers_setProducer _ p _) rfl
    | count task hp => exact hmove rfl (producers_setProducer _ p _) rfl
    | unlock task hp => exact hmove rfl (producers_setProducer _ p _) rfl
  | notifyOne p w =>
    obtain ⟨task, hp, hw⟩ := notifyOne_cases hstep
    rcases hw with ⟨-, -, rfl⟩ | ⟨w, -, -, rfl⟩ <;>
      exact hmove rfl (producers_setProducer _ p _) rfl
  | wait v => cases wait_cases hstep <;> exact h.filled
  | wakeWaiter v =>
    obtain ⟨before, -, rfl⟩ := wakeWaiter_cases hstep
    exact h.filled
  | stop => cases stop_cases hstep <;> exact h.filled

theorem Watched.step {a : Action n} (h : Watched s) (hprompt : Prompt s a)
    (hstep : step s a = some t) : Watched t :=
  ⟨h.sound.step hstep, h.filled_step hstep, h.due_step hprompt hstep⟩

theorem watched_init : Watched ({} : State n) :=
  ⟨sound_init, fun _ hlead => absurd rfl hlead, fun _ hsleeps => (by cases hsleeps)⟩

theorem Watched.not_stuck (h : Watched s) : ¬ Stuck s := by
  rintro ⟨⟨v, before, hv⟩, htasks, -, hworkers, -, -⟩
  rcases h.due v (by rw [hv]; rfl) with hqueue | ⟨w, hw⟩
  · exact hqueue htasks
  · rw [hworkers w] at hw
    cases hw

end Watched

/-- **No thread waits for a notification that was given**, in the runs whose notifications
are prompt. -/
theorem threadPool_wakes (n : ℕ) : NoLostWakeUp ((threadPool n).restrict Prompt) := by
  intro as s hrun
  refine Watched.not_stuck (System.reachable_invariant watched_init ?_ hrun)
  intro s a t h hstep
  obtain ⟨hprompt, hstep⟩ := System.step_restrict.mp hstep
  exact h.step hprompt hstep

/-- A thread blocks while the task is executed. -/
def sampleBlocked : List (Action 1) :=
  enqueueCall 0 ++ List.replicate 6 (.work onlyWorker .returned) ++ List.replicate 4 (.wait 0)

/-- It is woken when the task is finished. -/
theorem threadPool_wakes_sample :
    ∃ s t, ((threadPool 1).restrict Prompt).exec (threadPool 1).init sampleBlocked = some s ∧
      ((threadPool 1).restrict Prompt).exec s
        (List.replicate 5 (.work onlyWorker .returned) ++ List.replicate 2 (.wait 0)) = some t ∧
      s.waiters 0 = .blocked [0] ∧ ¬ Stuck s ∧ t.waited = [([0], [0])] ∧ ¬ Stuck t := by
  obtain ⟨s, hs, htest⟩ := ((threadPool 1).restrict Prompt).exists_exec_of_any
    (threadPool 1).init sampleBlocked
    (fun s => decide (s.waiters 0 = .blocked [0]) &&
      (((threadPool 1).restrict Prompt).exec s (List.replicate 5 (.work onlyWorker .returned) ++
        List.replicate 2 (.wait 0))).any fun t => t.waited = [([0], [0])]) (by decide +kernel)
  rw [Bool.and_eq_true, decide_eq_true_eq] at htest
  obtain ⟨hblocked, hrest⟩ := htest
  obtain ⟨t, ht, hwaited⟩ := ((threadPool 1).restrict Prompt).exists_exec_of_any _ _ _ hrest
  have hwakes := threadPool_wakes 1
  have hboth : ((threadPool 1).restrict Prompt).exec (threadPool 1).init (sampleBlocked ++
      (List.replicate 5 (.work onlyWorker .returned) ++ List.replicate 2 (.wait 0))) = some t := by
    rw [System.exec_append, hs]
    exact ht
  exact ⟨s, t, hs, ht, hblocked, hwakes _ s hs, of_decide_eq_true hwaited, hwakes _ t hboth⟩

/-! ### The wake-up that is lost -/

/-- The thread in `enqueue` that an action moves. -/
def Action.producer : Action n → Option ℕ
  | .enqueue p | .notifyOne p _ => some p
  | _ => none

/-- A thread in `enqueue` moves by its own steps alone. -/
theorem producers_step {s t : State n} {a : Action n} {p : ℕ} (ha : a.producer ≠ some p)
    (hstep : step s a = some t) : t.producers p = s.producers p := by
  have hmove : ∀ {p' : ℕ} {place : Producer} (s' : State n), some p' ≠ some p →
      (s'.setProducer p' place).producers p = s'.producers p := by
    intro p' place s' hne
    rw [producers_setProducer, if_neg fun heq => hne (congrArg some heq.symm)]
  cases a with
  | work w outcome => cases work_cases hstep <;> rfl
  | wakeWorker w => rw [(wakeWorker_cases hstep).2]; rfl
  | enqueue p' => cases enqueue_cases hstep <;> exact hmove _ ha
  | notifyOne p' w =>
    obtain ⟨task, -, hw⟩ := notifyOne_cases hstep
    rcases hw with ⟨-, -, rfl⟩ | ⟨w, -, -, rfl⟩ <;> exact hmove _ ha
  | wait v => cases wait_cases hstep <;> rfl
  | wakeWaiter v =>
    obtain ⟨before, -, rfl⟩ := wakeWaiter_cases hstep
    rfl
  | stop => cases stop_cases hstep <;> rfl

theorem producers_exec {p : ℕ} {as : List (Action n)} {s t : State n}
    (has : ∀ a ∈ as, a.producer ≠ some p) (hrun : (threadPool n).exec s as = some t) :
    t.producers p = s.producers p := by
  induction as generalizing s with
  | nil => exact congrArg (fun s : State n => s.producers p) (Option.some.inj hrun).symm
  | cons a as ih =>
    obtain ⟨u, hu, hrest⟩ := System.exec_cons_eq_some _ hrun
    rw [ih (fun b hb => has b (List.mem_cons_of_mem a hb)) hrest]
    exact producers_step (has a List.mem_cons_self) hu

/-- A thread sees a task being executed; before it blocks, the worker finishes the task,
sees nothing left and notifies. -/
def sampleWakeUp : List (Action 1) :=
  enqueueCall 0 ++ List.replicate 6 (.work onlyWorker .returned) ++ List.replicate 3 (.wait 0) ++
    List.replicate 5 (.work onlyWorker .returned) ++ [.wait 0] ++
    List.replicate 3 (.work onlyWorker .returned)

/-- Nobody was blocked when it did. -/
theorem sampleWakeUp_lost : ¬ ∀ n : ℕ, NoLostWakeUp (threadPool n) := by
  intro h
  obtain ⟨s, hrun, htest⟩ := (threadPool 1).exists_exec_of_any (threadPool 1).init sampleWakeUp
    (fun s => s.waiters 0 = .blocked [0] ∧ s.tasks = [] ∧ s.activeThreads = 0 ∧
      (∀ w, s.workers w = .waiting) ∧ s.producers 0 = .outside ∧ s.stopper = .outside)
    (by decide +kernel)
  obtain ⟨hblocked, htasks, hactive, hworkers, hproducer, hstopper⟩ := of_decide_eq_true htest
  refine h 1 sampleWakeUp s hrun
    ⟨⟨0, [0], hblocked⟩, htasks, hactive, hworkers, ?_, by rw [hstopper]; decide⟩
  intro p task
  by_cases hp : p = 0
  · subst hp
    rw [hproducer]
    exact fun heq => (by cases heq)
  · have hothers : ∀ a ∈ sampleWakeUp, a.producer ≠ some p := by
      have honly : ∀ a ∈ sampleWakeUp, a.producer = none ∨ a.producer = some 0 := by decide
      intro a ha heq
      rcases honly a ha with hnone | hzero
      · rw [hnone] at heq
        cases heq
      · exact hp (Option.some.inj (heq.symm.trans hzero))
    rw [producers_exec hothers hrun]
    exact fun heq => (by cases heq)

end ThreadPool
