import RpcFramework.Common.Completion

/-!
# The pool does not fall asleep over its work

A worker that finds the queue empty blocks in `condition_` until it is notified: by the
`notify_one` of an `enqueue`, or by the `notify_all` of `stop`.  Neither gets lost.  While
there is a task in the queue some worker is awake, or some `enqueue` is about to notify;
and once `stop` has notified, no worker is blocked any more.  A worker that is awake comes to
the queue by its own steps, and waits for nothing but `queue_mutex_`, whose owner can go on.

## Main definitions

* `ThreadPool.Worker.awake`, `ThreadPool.Worker.distance` — a worker on its way to the queue.
* `ThreadPool.Attended` — somebody attends to the queue, and to a pool that is stopped.
* `ThreadPool.CanStep` — the thread can take a step.

## Main results

* `ThreadPool.Attended.step` — **every step keeps the pool attended.**
* `ThreadPool.threadPool_takes` — **while there are tasks, some worker comes to take one.**
* `ThreadPool.threadPool_leaves` — **once the pool is stopped, every worker comes to leave.**
-/

namespace ThreadPool

variable {n : ℕ}

/-- A worker that goes on to the queue without being notified. -/
def Worker.awake : Worker → Bool
  | .parking | .waiting | .returned => false
  | _ => true

/-- How many steps of its own a worker takes at most until it has taken the next task. -/
def Worker.distance : Worker → ℕ
  | .popped _ => 11
  | .counted _ => 10
  | .taken _ => 9
  | .entered _ => 8
  | .running _ => 7
  | .ended _ => 6
  | .decremented => 5
  | .drained => 4
  | .notifying => 3
  | .top => 2
  | .locked => 1
  | .parking | .waiting | .returned => 0

/-- The places in `stop` from which its `notify_all` is still to come. -/
def Stopper.notifies : Stopper → Bool
  | .stopped | .notifying => true
  | _ => false

/-- The thread an action belongs to; a spurious wake-up belongs to none. -/
def Action.thread : Action n → Option (Thread n)
  | .work w _ => some (.worker w)
  | .enqueue p | .notifyOne p _ => some (.producer p)
  | .wait v => some (.waiter v)
  | .stop => some .stopper
  | .wakeWorker _ | .wakeWaiter _ => none

/-- The thread can take a step. -/
def CanStep (s : State n) (i : Thread n) : Prop :=
  ∃ a t, a.thread = some i ∧ step s a = some t

/-- After at most `m` more steps inside `enqueue` the thread can notify, and a worker is awake. -/
def Notifies (s : State n) (p m : ℕ) : Prop :=
  ∃ k ≤ m, ∃ v u,
    (threadPool n).exec s (List.replicate k (.enqueue p) ++ [.notifyOne p v]) = some u ∧
      ∃ w, (u.workers w).awake = true

/-- Somebody attends to the queue and to the stopping of the pool. -/
structure Attended (s : State n) : Prop where
  sound : Sound s
  /-- A worker that is about to block has seen that there is nothing to do. -/
  parking : ∀ w, s.workers w = .parking → s.tasks = [] ∧ s.stop = false
  queued : s.tasks ≠ [] → (∃ w, (s.workers w).awake = true) ∨ ∃ p, (s.producers p).task ≠ none
  stopped : s.stop = true → s.stopper.notifies = true ∨ ∀ w, s.workers w ≠ .waiting

section Steps

variable {s t : State n} {a : Action n}

/-! ### What a step does to one part of the pool -/

/-- A worker moves by its own steps, or is woken. -/
theorem workers_step (hstep : step s a = some t) (w : Fin n) :
    (∃ outcome, a = .work w outcome) ∨ t.workers w = s.workers w ∨
      s.workers w = .waiting ∧ t.workers w = .top := by
  have hset : ∀ (s' : State n) (w' : Fin n) (place : Worker), w ≠ w' →
      (s'.setWorker w' place).workers w = s'.workers w :=
    fun s' w' place hne => by rw [workers_setWorker, if_neg hne]
  have hwoken : ∀ (s' : State n) (w' : Fin n), s'.workers = s.workers → s'.workers w' = .waiting →
      (s'.setWorker w' .top).workers w = s.workers w ∨
        s.workers w = .waiting ∧ (s'.setWorker w' .top).workers w = .top := by
    intro s' w' hsame hwaiting
    rw [workers_setWorker]
    split
    · next heq => exact .inr ⟨by rw [heq, ← hsame]; exact hwaiting, rfl⟩
    · exact .inl (congrFun hsame w)
  cases a with
  | work w' outcome =>
    by_cases hne : w = w'
    · exact .inl ⟨outcome, hne ▸ rfl⟩
    · refine .inr (.inl ?_)
      cases work_cases hstep <;> exact hset _ w' _ hne
  | wakeWorker w' =>
    obtain ⟨hwaiting, rfl⟩ := wakeWorker_cases hstep
    exact .inr (hwoken s w' rfl hwaiting)
  | enqueue p => exact .inr (.inl (by cases enqueue_cases hstep <;> rfl))
  | notifyOne p w' =>
    obtain ⟨task, -, ⟨-, -, rfl⟩ | ⟨w', -, hwaiting, rfl⟩⟩ := notifyOne_cases hstep
    · exact .inr (.inl rfl)
    · exact .inr (hwoken _ w' rfl hwaiting)
  | wait v => exact .inr (.inl (by cases wait_cases hstep <;> rfl))
  | wakeWaiter v =>
    obtain ⟨before, -, rfl⟩ := wakeWaiter_cases hstep
    exact .inr (.inl rfl)
  | stop =>
    right
    cases stop_cases hstep with
    | notify hstop =>
      show (s.workers w).wake = s.workers w ∨ s.workers w = .waiting ∧ (s.workers w).wake = .top
      cases s.workers w with
      | waiting => exact .inr ⟨rfl, rfl⟩
      | _ => exact .inl rfl
    | _ => exact .inl rfl

/-- A worker's own step puts it to sleep, ends it, or brings it nearer to the next task. -/
inductive OwnStep (s t : State n) (w : Fin n) : Prop where
  | park (hlocked : s.workers w = .locked) (hstop : s.stop = false) (htasks : s.tasks = [])
      (hw : t.workers w = .parking)
  | leave (hlocked : s.workers w = .locked) (hstop : s.stop = true) (htasks : s.tasks = [])
      (hw : t.workers w = .returned)
  | block (hparking : s.workers w = .parking) (hw : t.workers w = .waiting)
  | advance (hw : (t.workers w).awake = true)
      (hdistance : 1 + (t.workers w).distance + 11 * s.dequeued.length ≤
        (s.workers w).distance + 11 * t.dequeued.length)

/-- **Every step of a worker is one of these.** -/
theorem own_cases {w : Fin n} {outcome : Outcome} (hstep : work s w outcome = some t) :
    OwnStep s t w := by
  have hset : ∀ (s' : State n) (place : Worker), (s'.setWorker w place).workers w = place :=
    fun s' place => by rw [workers_setWorker, if_pos rfl]
  have hadvance : ∀ {old place : Worker} (s' : State n), s.workers w = old →
      place.awake = true →
      1 + place.distance + 11 * s.dequeued.length ≤ old.distance + 11 * s'.dequeued.length →
      OwnStep s (s'.setWorker w place) w := by
    rintro old place s' rfl hplace hdistance
    exact .advance (by rw [hset]; exact hplace) (by rw [hset]; exact hdistance)
  cases work_cases hstep with
  | park hw hstop htasks => exact .park hw hstop htasks (hset _ _)
  | leave hw hstop htasks => exact .leave hw hstop htasks (hset _ _)
  | block hw => exact .block hw (hset _ _)
  | pop task tasks hw htasks =>
    refine hadvance _ hw rfl ?_
    show 1 + 11 + 11 * s.dequeued.length ≤ 1 + 11 * (s.dequeued ++ [task]).length
    rw [List.length_append, List.length_singleton]
    omega
  | testActive hw =>
    refine hadvance _ hw (by split <;> rfl) (Nat.add_le_add_right ?_ _)
    split <;> decide
  | testPending hw =>
    refine hadvance _ hw (by split <;> rfl) (Nat.add_le_add_right ?_ _)
    split <;> decide
  | lock hw | notify hw => exact hadvance _ hw rfl (Nat.add_le_add_right (by decide) _)
  | count task hw | take task hw | enter task hw | start task hw | finish task hw
  | depart before hw =>
    exact hadvance _ hw rfl (Nat.add_le_add_right (Nat.le_refl _) _)

/-- A step leaves the queue alone, or takes its first task, or puts one behind the last. -/
inductive QueueStep (s t : State n) (a : Action n) : Prop where
  | same (htasks : t.tasks = s.tasks) (hdequeued : t.dequeued = s.dequeued)
  | pop (w : Fin n) (outcome : Outcome) (task : Task) (ha : a = .work w outcome)
      (hlocked : s.workers w = .locked) (htasks : s.tasks = task :: t.tasks)
      (hdequeued : t.dequeued = s.dequeued ++ [task]) (hpopped : t.workers w = .popped task)
  | push (p : ℕ) (hlocked : s.producers p = .locked) (hstop : s.stop = false)
      (htasks : t.tasks = s.tasks ++ [s.enqueued.length]) (hdequeued : t.dequeued = s.dequeued)
      (hpushed : (t.producers p).task ≠ none)

/-- **Every step does one of these to the queue.** -/
theorem queue_cases (hstep : step s a = some t) : QueueStep s t a := by
  cases a with
  | work w outcome =>
    cases work_cases hstep with
    | pop task tasks hw htasks =>
      exact .pop w outcome task rfl hw htasks rfl (by rw [workers_setWorker, if_pos rfl])
    | _ => exact .same rfl rfl
  | wakeWorker w =>
    obtain ⟨-, rfl⟩ := wakeWorker_cases hstep
    exact .same rfl rfl
  | enqueue p =>
    cases enqueue_cases hstep with
    | push hp hstop =>
      refine .push p hp hstop rfl rfl ?_
      rw [producers_setProducer, if_pos rfl]
      exact Option.some_ne_none _
    | _ => exact .same rfl rfl
  | notifyOne p w =>
    obtain ⟨task, -, ⟨-, -, rfl⟩ | ⟨w, -, -, rfl⟩⟩ := notifyOne_cases hstep <;>
      exact .same rfl rfl
  | wait v => cases wait_cases hstep <;> exact .same rfl rfl
  | wakeWaiter v =>
    obtain ⟨before, -, rfl⟩ := wakeWaiter_cases hstep
    exact .same rfl rfl
  | stop => cases stop_cases hstep <;> exact .same rfl rfl

/-- Only the thread in `stop` has to do with stopping. -/
theorem stopper_kept (hstep : step s a = some t) (ha : a ≠ .stop) :
    t.stopper = s.stopper ∧ t.stop = s.stop := by
  cases a with
  | work w outcome => cases work_cases hstep <;> exact ⟨rfl, rfl⟩
  | wakeWorker w =>
    obtain ⟨-, rfl⟩ := wakeWorker_cases hstep
    exact ⟨rfl, rfl⟩
  | enqueue p => cases enqueue_cases hstep <;> exact ⟨rfl, rfl⟩
  | notifyOne p w =>
    obtain ⟨task, -, ⟨-, -, rfl⟩ | ⟨w, -, -, rfl⟩⟩ := notifyOne_cases hstep <;> exact ⟨rfl, rfl⟩
  | wait v => cases wait_cases hstep <;> exact ⟨rfl, rfl⟩
  | wakeWaiter v =>
    obtain ⟨before, -, rfl⟩ := wakeWaiter_cases hstep
    exact ⟨rfl, rfl⟩
  | stop => exact absurd rfl ha

/-- The pool is stopped by the owner of the mutex, who goes on to notify. -/
theorem stop_step (hstep : step s a = some t) :
    t.stop = s.stop ∨
      s.stopper = .locked ∧ t.stop = true ∧ t.stopper.notifies = true := by
  by_cases ha : a = .stop
  · subst ha
    cases stop_cases hstep with
    | set hstop => exact .inr ⟨hstop, rfl, rfl⟩
    | _ => exact .inl rfl
  · exact .inl (stopper_kept hstep ha).2

theorem stop_kept (hstep : step s a = some t) (hstop : s.stop = true) : t.stop = true := by
  rcases stop_step hstep with hsame | ⟨-, hset, -⟩
  · rw [hsame, hstop]
  · exact hset

/-- Where `stop` is to notify, it still is, or no worker is blocked any more. -/
theorem notifies_step (hstep : step s a = some t) (hnotifies : s.stopper.notifies = true) :
    t.stopper.notifies = true ∨ ∀ w, t.workers w ≠ .waiting := by
  by_cases ha : a = .stop
  · subst ha
    cases stop_cases hstep with
    | unlock hstop => exact .inl rfl
    | notify hstop =>
      right
      intro w
      show (s.workers w).wake ≠ .waiting
      cases s.workers w <;> simp [Worker.wake]
    | again hstop | call hstop | lock hstop | set hstop | join _ _ hstop | leave _ _ hstop =>
      rw [hstop] at hnotifies
      cases hnotifies
  · left
    rw [(stopper_kept hstep ha).1]
    exact hnotifies

/-- A call of `enqueue` whose task is in the queue still is to notify, or has notified: it has
woken a worker, or no worker was blocked. -/
theorem task_step (hstep : step s a = some t) {p : ℕ} (htask : (s.producers p).task ≠ none) :
    (t.producers p).task ≠ none ∨ (∃ w, s.workers w = .waiting ∧ t.workers w = .top) ∨
      t.workers = s.workers ∧ ∀ w, s.workers w ≠ .waiting := by
  by_cases ha : a.producer = some p
  · cases a with
    | enqueue p' =>
      obtain rfl := Option.some.inj ha
      left
      cases enqueue_cases hstep with
      | call hp | lock hp | refuse hp =>
        rw [hp] at htask
        exact absurd rfl htask
      | push hp | count task hp | unlock task hp =>
        rw [producers_setProducer, if_pos rfl]
        exact Option.some_ne_none _
    | notifyOne p' w =>
      obtain ⟨task, -, ⟨-, hnone, rfl⟩ | ⟨w, -, hwaiting, rfl⟩⟩ := notifyOne_cases hstep
      · exact .inr (.inr ⟨rfl, hnone⟩)
      · exact .inr (.inl ⟨w, hwaiting, by rw [workers_setWorker, if_pos rfl]⟩)
    | work w outcome | wakeWorker w | wait v | wakeWaiter v | stop => cases ha
  · left
    rw [producers_step ha hstep]
    exact htask

/-! ### Somebody attends to the pool -/

theorem Worker.awake_or (place : Worker) :
    place.awake = true ∨ place = .parking ∨ place = .waiting ∨ place = .returned := by
  cases place <;> simp [Worker.awake]

/-- A worker that is awake stays so, unless it finds nothing to do. -/
theorem awake_step (hstep : step s a = some t) {w : Fin n} (hw : (s.workers w).awake = true) :
    (t.workers w).awake = true ∨ s.tasks = [] := by
  rcases workers_step hstep w with ⟨outcome, rfl⟩ | hsame | ⟨-, htop⟩
  · cases own_cases hstep with
    | park _ _ htasks | leave _ _ htasks => exact .inr htasks
    | block hparking =>
      rw [hparking] at hw
      cases hw
    | advance hawake => exact .inl hawake
  · exact .inl (hsame ▸ hw)
  · exact .inl (htop ▸ rfl)

/-- Where there are tasks, a worker that is not blocked is awake. -/
theorem Attended.awake_of_ne (h : Attended s) (htasks : s.tasks ≠ []) {w : Fin n}
    (hw : s.workers w ≠ .waiting) : (s.workers w).awake = true := by
  rcases (s.workers w).awake_or with hawake | hparking | hwaiting | hreturned
  · exact hawake
  · exact absurd (h.parking w hparking).1 htasks
  · exact absurd hwaiting hw
  · exact absurd (h.sound.shutdown.drained w hreturned).2 htasks

theorem Attended.parking_step (h : Attended s) (hstep : step s a = some t) :
    ∀ w, t.workers w = .parking → t.tasks = [] ∧ t.stop = false := by
  intro w hw
  -- the worker owns the mutex, so nobody puts a task into the queue or stops the pool
  have howner : s.holds (.worker w) = true ∧ s.tasks = [] ∧ s.stop = false := by
    rcases workers_step hstep w with ⟨outcome, rfl⟩ | hsame | ⟨-, htop⟩
    · cases own_cases hstep with
      | park hlocked hstop htasks => exact ⟨holds_worker hlocked, htasks, hstop⟩
      | leave _ _ _ hnext | block _ hnext =>
        rw [hnext] at hw
        cases hw
      | advance hawake =>
        rw [hw] at hawake
        cases hawake
    · have hparking : s.workers w = .parking := hsame ▸ hw
      exact ⟨holds_worker hparking, h.parking w hparking⟩
    · rw [htop] at hw
      cases hw
  obtain ⟨hholds, htasks, hstop⟩ := howner
  constructor
  · cases queue_cases hstep with
    | same hsame => rw [hsame, htasks]
    | pop _ _ task _ _ hcons =>
      rw [htasks] at hcons
      cases hcons
    | push p hlocked =>
      have heq := h.sound.guarded.exclusive.unique hholds (holds_producer hlocked)
      cases heq
  · rcases stop_step hstep with hsame | ⟨hlocked, -⟩
    · rw [hsame, hstop]
    · have heq := h.sound.guarded.exclusive.unique hholds (holds_stopper hlocked)
      cases heq

/-- A task in the queue has a worker that is awake, or an `enqueue` that is to notify. -/
theorem Attended.queued_step (h : Attended s) (hn : 0 < n) (hstep : step s a = some t)
    (htasks : t.tasks ≠ []) :
    (∃ w, (t.workers w).awake = true) ∨ ∃ p, (t.producers p).task ≠ none := by
  cases queue_cases hstep with
  | pop w _ _ _ _ _ _ hpopped => exact .inl ⟨w, by rw [hpopped]; rfl⟩
  | push p _ _ _ _ hpushed => exact .inr ⟨p, hpushed⟩
  | same hsame =>
    rw [hsame] at htasks
    rcases h.queued htasks with ⟨w, hw⟩ | ⟨p, hp⟩
    · exact .inl ⟨w, (awake_step hstep hw).resolve_right htasks⟩
    · rcases task_step hstep hp with htask | ⟨w, -, htop⟩ | ⟨hworkers, hnone⟩
      · exact .inr ⟨p, htask⟩
      · exact .inl ⟨w, by rw [htop]; rfl⟩
      · refine .inl ⟨⟨0, hn⟩, ?_⟩
        rw [hworkers]
        exact h.awake_of_ne htasks (hnone _)

theorem Attended.stopped_step (h : Attended s) (hstep : step s a = some t) (hstop : t.stop = true) :
    t.stopper.notifies = true ∨ ∀ w, t.workers w ≠ .waiting := by
  rcases stop_step hstep with hsame | ⟨-, -, hnotifies⟩
  · rw [hsame] at hstop
    rcases h.stopped hstop with hnotifies | hnone
    · exact notifies_step hstep hnotifies
    · right
      intro w hw
      rcases workers_step hstep w with ⟨outcome, rfl⟩ | hkept | ⟨-, htop⟩
      · cases own_cases hstep with
        | block hparking =>
          rw [(h.parking w hparking).2] at hstop
          cases hstop
        | park _ _ _ hnext | leave _ _ _ hnext =>
          rw [hnext] at hw
          cases hw
        | advance hawake =>
          rw [hw] at hawake
          cases hawake
      · exact hnone w (hkept ▸ hw)
      · rw [htop] at hw
        cases hw
  · exact .inl hnotifies

/-- **Every step keeps the pool attended.** -/
theorem Attended.step (hn : 0 < n) (h : Attended s) (hstep : ThreadPool.step s a = some t) :
    Attended t where
  sound := h.sound.step hstep
  parking := h.parking_step hstep
  queued := h.queued_step hn hstep
  stopped := h.stopped_step hstep

theorem attended_init : Attended ({} : State n) :=
  ⟨sound_init, fun _ h => (by cases h), fun h => absurd rfl h, fun h => (by cases h)⟩

/-! ### How far it is to the next task -/

/-- Tasks are taken off the queue, and put into it. -/
theorem queue_mono_step (hstep : step s a = some t) :
    s.dequeued.length ≤ t.dequeued.length ∧
      s.dequeued.length + s.tasks.length ≤ t.dequeued.length + t.tasks.length := by
  cases queue_cases hstep with
  | same htasks hdequeued =>
    rw [htasks, hdequeued]
    exact ⟨Nat.le_refl _, Nat.le_refl _⟩
  | pop _ _ task _ _ htasks hdequeued =>
    rw [htasks, hdequeued, List.length_cons, List.length_append, List.length_singleton]
    omega
  | push _ _ _ htasks hdequeued =>
    rw [htasks, hdequeued, List.length_append]
    omega

theorem queue_mono_exec {bs : List (Action n)} (hrun : (threadPool n).exec s bs = some t) :
    s.dequeued.length ≤ t.dequeued.length ∧
      s.dequeued.length + s.tasks.length ≤ t.dequeued.length + t.tasks.length :=
  System.exec_relation (I := fun _ => True) (R := fun s t : State n =>
    s.dequeued.length ≤ t.dequeued.length ∧
      s.dequeued.length + s.tasks.length ≤ t.dequeued.length + t.tasks.length)
    (fun _ => ⟨Nat.le_refl _, Nat.le_refl _⟩)
    (fun _ _ _ h h' => ⟨Nat.le_trans h.1 h'.1, Nat.le_trans h.2 h'.2⟩)
    (fun _ _ _ _ _ => trivial) (fun _ _ _ _ => queue_mono_step) trivial hrun

theorem Action.thread_eq_worker {w : Fin n} :
    a.thread = some (.worker w) ↔ ∃ outcome, a = .work w outcome := by
  cases a <;> simp [Action.thread]

/-- A worker that is not asleep comes nearer to a task with each step of its own, and the steps
of the others do not take it away from there. -/
theorem distance_step (hstep : step s a = some t) {w : Fin n}
    (hbusy : s.stop = true ∨ s.tasks ≠ [])
    (hw : (s.workers w).awake = true ∨ s.workers w = .returned) :
    ((t.workers w).awake = true ∨ t.workers w = .returned) ∧
      (if a.thread = some (.worker w) then 1 else 0) + (t.workers w).distance +
        11 * s.dequeued.length ≤ (s.workers w).distance + 11 * t.dequeued.length := by
  have hmono := (queue_mono_step hstep).1
  by_cases ha : a.thread = some (.worker w)
  · rw [if_pos ha]
    obtain ⟨outcome, rfl⟩ := Action.thread_eq_worker.mp ha
    cases own_cases hstep with
    | park _ hstop htasks =>
      rw [hstop, htasks] at hbusy
      simp at hbusy
    | leave hlocked _ _ hnext =>
      refine ⟨.inr hnext, ?_⟩
      rw [hlocked, hnext]
      exact Nat.add_le_add_left (Nat.mul_le_mul_left _ hmono) _
    | block hparking =>
      rw [hparking] at hw
      rcases hw with hw | hw <;> cases hw
    | advance hawake hdistance => exact ⟨.inl hawake, hdistance⟩
  · rw [if_neg ha]
    rcases workers_step hstep w with hown | hsame | ⟨hwaiting, -⟩
    · exact absurd (Action.thread_eq_worker.mpr hown) ha
    · rw [hsame]
      exact ⟨hw, by omega⟩
    · rw [hwaiting] at hw
      rcases hw with hw | hw <;> cases hw

/-- While there is something to do, a worker comes to a task with every eleven steps at most. -/
theorem distance_exec {w : Fin n} : ∀ {bs : List (Action n)} {s t : State n},
    (threadPool n).exec s bs = some t →
    s.stop = true ∨ t.dequeued.length < s.dequeued.length + s.tasks.length →
    (s.workers w).awake = true ∨ s.workers w = .returned →
    ((t.workers w).awake = true ∨ t.workers w = .returned) ∧
      bs.countP (fun a => a.thread = some (.worker w)) + (t.workers w).distance +
        11 * s.dequeued.length ≤ (s.workers w).distance + 11 * t.dequeued.length := by
  intro bs
  induction bs with
  | nil =>
    intro s t hrun _ hw
    obtain rfl := Option.some.inj hrun
    exact ⟨hw, by rw [List.countP_nil, Nat.zero_add]⟩
  | cons a bs ih =>
    intro s t hrun hbusy hw
    obtain ⟨u, hu, hrest⟩ := System.exec_cons_eq_some _ hrun
    have hfirst := queue_mono_step hu
    have hlast := queue_mono_exec hrest
    -- the run does not take all the tasks there are, so at its start there is one
    have hnow : s.stop = true ∨ s.tasks ≠ [] :=
      hbusy.imp_right fun hlt => List.ne_nil_of_length_pos (by omega)
    obtain ⟨hawake, hdistance⟩ := distance_step hu hnow hw
    have hthen : u.stop = true ∨ t.dequeued.length < u.dequeued.length + u.tasks.length :=
      hbusy.imp (stop_kept hu) fun hlt => by omega
    obtain ⟨hend, hcount⟩ := ih hrest hthen hawake
    refine ⟨hend, ?_⟩
    rw [List.countP_cons]
    simp only [decide_eq_true_eq]
    omega

/-- A stopped pool takes no more tasks. -/
theorem remaining_exec {bs : List (Action n)} (hrun : (threadPool n).exec s bs = some t)
    (hstop : s.stop = true) :
    t.dequeued.length + t.tasks.length = s.dequeued.length + s.tasks.length := by
  have hboth : t.stop = true ∧
      t.dequeued.length + t.tasks.length = s.dequeued.length + s.tasks.length := by
    refine System.exec_invariant (I := fun u : State n => u.stop = true ∧
      u.dequeued.length + u.tasks.length = s.dequeued.length + s.tasks.length) ?_ ⟨hstop, rfl⟩ hrun
    rintro u a v ⟨hu, hsum⟩ hstep
    refine ⟨stop_kept hstep hu, ?_⟩
    cases queue_cases hstep with
    | same htasks hdequeued => rw [htasks, hdequeued, hsum]
    | pop _ _ task _ _ htasks hdequeued =>
      rw [htasks, List.length_cons] at hsum
      rw [hdequeued, List.length_append, List.length_singleton]
      omega
    | push _ _ hrunning =>
      rw [hu] at hrunning
      cases hrunning
  exact hboth.2

/-! ### Nobody is stuck -/

theorem canStep_of_isSome {i : Thread n} (ha : a.thread = some i)
    (hsome : (step s a).isSome = true) : CanStep s i := by
  obtain ⟨t, ht⟩ := Option.isSome_iff_exists.mp hsome
  exact ⟨a, t, ha, ht⟩

/-- A worker that is not blocked goes on, unless it has to wait for the mutex. -/
theorem worker_canStep {w : Fin n} (hw : (s.workers w).awake = true ∨ s.workers w = .parking)
    (hfree : s.workers w = .top → s.queueMutex = none) : CanStep s (.worker w) := by
  refine canStep_of_isSome (a := .work w .returned) rfl ?_
  show (work s w .returned).isSome = true
  unfold work
  cases hplace : s.workers w with
  | top =>
    rw [State.lock, if_pos (hfree hplace)]
    rfl
  | locked =>
    cases htasks : s.tasks with
    | nil => cases hstop : s.stop <;> simp
    | cons task tasks => simp
  | waiting | returned =>
    rw [hplace] at hw
    rcases hw with hw | hw <;> cases hw
  | parking | popped | counted | taken | entered | running | ended | decremented | drained
  | notifying => rfl

/-- The owner of the mutex goes on. -/
theorem Sound.owner_canStep (h : Sound s) {i : Thread n} (howner : s.queueMutex = some i) :
    CanStep s i := by
  have hholds : s.holds i = true := (h.guarded.exclusive i).mpr howner
  cases i with
  | worker w =>
    have hplace : (s.workers w).holds = true := hholds
    refine worker_canStep ?_ fun htop => ?_
    · cases hw : s.workers w with
      | waiting | returned =>
        rw [hw] at hplace
        cases hplace
      | parking => exact .inr rfl
      | _ => exact .inl rfl
    · rw [htop] at hplace
      cases hplace
  | producer p =>
    have hplace : (s.producers p).holds = true := hholds
    refine canStep_of_isSome (a := .enqueue p) rfl ?_
    show (enqueue s p).isSome = true
    unfold enqueue
    cases hp : s.producers p with
    | locked => cases hstop : s.stop <;> simp
    | pushed | counted => rfl
    | outside | entering | notifying =>
      rw [hp] at hplace
      cases hplace
  | waiter v =>
    have hplace : (s.waiters v).holds = true := hholds
    refine canStep_of_isSome (a := .wait v) rfl ?_
    show (wait s v).isSome = true
    unfold wait
    cases hv : s.waiters v with
    | locked => by_cases hdone : s.tasks = [] ∧ s.activeThreads = 0 <;> simp [hdone]
    | parking => rfl
    | outside | entering | blocked =>
      rw [hv] at hplace
      cases hplace
  | stopper =>
    have hplace : s.stopper.holds = true := hholds
    refine canStep_of_isSome (a := .stop) rfl ?_
    show (stop s).isSome = true
    unfold stop
    cases hstop : s.stopper with
    | locked | stopped => rfl
    | outside | entering | notifying | joining | returned =>
      rw [hstop] at hplace
      cases hplace

/-- `stop` goes on to its notification. -/
theorem stopper_canStep (h : s.stopper.notifies = true) : CanStep s .stopper := by
  refine canStep_of_isSome (a := .stop) rfl ?_
  show (stop s).isSome = true
  unfold stop
  cases hstop : s.stopper with
  | stopped | notifying => rfl
  | outside | entering | locked | joining | returned =>
    rw [hstop] at h
    cases h

/-- A worker that is awake goes on, or the owner of the mutex does. -/
theorem Sound.awake_canStep (h : Sound s) {w : Fin n} (hw : (s.workers w).awake = true) :
    CanStep s (.worker w) ∨ ∃ i, s.queueMutex = some i ∧ CanStep s i := by
  cases howner : s.queueMutex with
  | none => exact .inl (worker_canStep (.inl hw) fun _ => howner)
  | some i => exact .inr ⟨i, rfl, h.owner_canStep howner⟩

/-- The notification of an `enqueue` leaves a worker awake. -/
theorem Attended.notifies_now (h : Attended s) (hn : 0 < n) (htasks : s.tasks ≠ []) {p : ℕ}
    {task : Task} (hp : s.producers p = .notifying task) : Notifies s p 0 := by
  have hexec : ∀ {v : Option (Fin n)} {u : State n}, notifyOne s p v = some u →
      (threadPool n).exec s (List.replicate 0 (.enqueue p) ++ [.notifyOne p v]) = some u := by
    intro v u hstep
    rw [List.replicate_zero, List.nil_append, System.exec_cons,
      show (threadPool n).step s (.notifyOne p v) = some u from hstep]
    rfl
  by_cases hwaiting : ∃ w, s.workers w = .waiting
  · obtain ⟨w, hw⟩ := hwaiting
    refine ⟨0, Nat.le_refl 0, some w,
      ({ s with accepted := s.accepted ++ [task] }.setProducer p .outside).setWorker w .top,
      hexec ?_, w, ?_⟩
    · rw [notifyOne, hp]
      exact if_pos hw
    · rw [workers_setWorker, if_pos rfl]
      rfl
  · have hnone : ∀ w, s.workers w ≠ .waiting := fun w hw => hwaiting ⟨w, hw⟩
    refine ⟨0, Nat.le_refl 0, none,
      { s with accepted := s.accepted ++ [task] }.setProducer p .outside, hexec ?_, ⟨0, hn⟩, ?_⟩
    · rw [notifyOne, hp]
      exact if_pos hnone
    · exact h.awake_of_ne htasks (hnone _)

theorem Notifies.prepend {p m : ℕ} (hstep : ThreadPool.step s (.enqueue p) = some t)
    (h : Notifies t p m) : Notifies s p (m + 1) := by
  obtain ⟨k, hk, v, u, hexec, hawake⟩ := h
  refine ⟨k + 1, Nat.succ_le_succ hk, v, u, ?_, hawake⟩
  rw [List.replicate_succ, List.cons_append, System.exec_cons,
    show (threadPool n).step s (.enqueue p) = some t from hstep]
  exact hexec

/-- A call of `enqueue` whose task is in the queue notifies within three steps of its own, and
waits for nothing before. -/
theorem Attended.notifies (h : Attended s) (hn : 0 < n) (htasks : s.tasks ≠ []) {p : ℕ}
    (hp : (s.producers p).task ≠ none) : ∃ m ≤ 2, Notifies s p m := by
  have hcounted : ∀ {s : State n} {task : Task}, Attended s → s.tasks ≠ [] →
      s.producers p = .counted task → Notifies s p 1 := by
    intro s task h htasks hplace
    have hunlock : ThreadPool.step s (.enqueue p) =
        some (s.unlock.setProducer p (.notifying task)) := by
      show enqueue s p = _
      rw [enqueue, hplace]
    have hthen : (s.unlock.setProducer p (.notifying task)).producers p = .notifying task := by
      rw [producers_setProducer, if_pos rfl]
    exact .prepend hunlock ((h.step hn hunlock).notifies_now hn htasks hthen)
  cases hplace : s.producers p with
  | notifying task => exact ⟨0, by omega, h.notifies_now hn htasks hplace⟩
  | counted task => exact ⟨1, by omega, hcounted h htasks hplace⟩
  | pushed task =>
    have hcount : ThreadPool.step s (.enqueue p) =
        some ({ s with pendingTasks := s.pendingTasks + 1 }.setProducer p (.counted task)) := by
      show enqueue s p = _
      rw [enqueue, hplace]
    have hthen : ({ s with pendingTasks := s.pendingTasks + 1 }.setProducer p
        (.counted task)).producers p = .counted task := by
      rw [producers_setProducer, if_pos rfl]
    exact ⟨2, by omega, .prepend hcount (hcounted (h.step hn hcount) htasks hthen)⟩
  | outside | entering | locked =>
    rw [hplace] at hp
    exact absurd rfl hp

end Steps

/-! ### Progress -/

theorem attended_of_exec (hn : 0 < n) {as : List (Action n)} {s : State n}
    (hrun : (threadPool n).exec (threadPool n).init as = some s) : Attended s :=
  System.reachable_invariant attended_init (fun _ _ _ => Attended.step hn) hrun

theorem Worker.distance_le (place : Worker) : place.distance ≤ 11 := by
  cases place <;> simp [Worker.distance]

theorem Worker.distance_pos {place : Worker} (h : place.awake = true) : 0 < place.distance := by
  cases place <;> simp_all [Worker.awake, Worker.distance]

/-- **While there are tasks, some worker comes to take one.**  A worker is awake, or an `enqueue`
is about to wake one.  Every worker that is awake can go on, or the owner of the mutex can; and
until `k` tasks have been taken, of those that are in the queue, it takes less than `11 * k`
steps. -/
theorem threadPool_takes (n : ℕ) (hn : 0 < n) : ∀ (as : List (Action n)) (s : State n),
    (threadPool n).exec (threadPool n).init as = some s → s.tasks ≠ [] →
      ((∃ w, (s.workers w).awake = true) ∨ ∃ p, ∃ m ≤ 2, Notifies s p m) ∧
      ∀ w, (s.workers w).awake = true →
        (CanStep s (.worker w) ∨ ∃ i, s.queueMutex = some i ∧ CanStep s i) ∧
        ∀ (bs : List (Action n)) (t : State n), (threadPool n).exec s bs = some t →
          ∀ k ≤ s.tasks.length, t.dequeued.length < s.dequeued.length + k →
            bs.countP (fun a => a.thread = some (.worker w)) < 11 * k := by
  intro as s hrun htasks
  have hs := attended_of_exec hn hrun
  refine ⟨(hs.queued htasks).imp_right fun ⟨p, hp⟩ => ⟨p, hs.notifies hn htasks hp⟩, ?_⟩
  refine fun w hw => ⟨hs.sound.awake_canStep hw, fun bs t hexec k hk hfew => ?_⟩
  obtain ⟨-, hsum⟩ := queue_mono_exec hexec
  obtain ⟨hend, hcount⟩ := distance_exec (w := w) hexec (.inr (by omega)) (.inl hw)
  have hnotyet : 0 < (t.workers w).distance := by
    rcases hend with hawake | hreturned
    · exact Worker.distance_pos hawake
    · have ht : Attended t := System.exec_invariant (fun _ _ _ => Attended.step hn) hs hexec
      have hempty := (ht.sound.shutdown.drained w hreturned).2
      rw [hempty, List.length_nil] at hsum
      omega
  have hstart := (s.workers w).distance_le
  omega

/-- The only worker is blocked when a task is put into the queue. -/
def sampleQueued : List (Action 1) :=
  List.replicate 3 (.work onlyWorker .returned) ++ List.replicate 5 (.enqueue 0)

/-- The `enqueue` is about to wake it. -/
theorem threadPool_takes_sample :
    ∃ s, (threadPool 1).exec (threadPool 1).init sampleQueued = some s ∧
      s.tasks = [0] ∧ (∀ w, s.workers w = .waiting) ∧ ∃ p, ∃ m ≤ 2, Notifies s p m := by
  obtain ⟨s, hs, htest⟩ := (threadPool 1).exists_exec_of_any (threadPool 1).init sampleQueued
    (fun s => s.tasks = [0] ∧ ∀ w, s.workers w = .waiting) (by decide +kernel)
  obtain ⟨htasks, hwaiting⟩ := of_decide_eq_true htest
  refine ⟨s, hs, htasks, hwaiting, ?_⟩
  have htakes := threadPool_takes 1 (by decide) _ s hs (by rw [htasks]; decide)
  refine htakes.1.resolve_left ?_
  rintro ⟨w, hawake⟩
  rw [hwaiting w] at hawake
  cases hawake

/-- **Once the pool is stopped, every worker comes to leave.**  `stop` can go on to its
notification; behind it no worker is blocked, each can go on, or the owner of the mutex can, until
it has returned, and it has returned after `11` steps of its own for each task in the queue and
another `11`. -/
theorem threadPool_leaves (n : ℕ) : ∀ (as : List (Action n)) (s : State n),
    (threadPool n).exec (threadPool n).init as = some s → s.stop = true →
      s.stopper.notifies = true ∧ CanStep s .stopper ∨
      ∀ w, (s.workers w = .returned ∨ CanStep s (.worker w) ∨
          ∃ i, s.queueMutex = some i ∧ CanStep s i) ∧
        ∀ (bs : List (Action n)) (t : State n), (threadPool n).exec s bs = some t →
          t.workers w = .returned ∨
            bs.countP (fun a => a.thread = some (.worker w)) < 11 * (s.tasks.length + 1) := by
  intro as s hrun hstop
  rcases Nat.eq_zero_or_pos n with rfl | hn
  · exact .inr fun w => w.elim0
  have hs := attended_of_exec hn hrun
  rcases hs.stopped hstop with hnotifies | hnone
  · exact .inl ⟨hnotifies, stopper_canStep hnotifies⟩
  · right
    intro w
    have hw : (s.workers w).awake = true ∨ s.workers w = .returned := by
      rcases (s.workers w).awake_or with hawake | hparking | hwaiting | hreturned
      · exact .inl hawake
      · rw [(hs.parking w hparking).2] at hstop
        cases hstop
      · exact absurd hwaiting (hnone w)
      · exact .inr hreturned
    refine ⟨hw.symm.imp_right hs.sound.awake_canStep, fun bs t hexec => ?_⟩
    obtain ⟨hend, hcount⟩ := distance_exec hexec (.inl hstop) hw
    refine hend.symm.imp_right fun hawake => ?_
    have hpos := Worker.distance_pos hawake
    have hstart := (s.workers w).distance_le
    have hremaining := remaining_exec hexec hstop
    omega

/-- The only worker is blocked when the pool is stopped. -/
def sampleStopped : List (Action 1) :=
  List.replicate 3 (.work onlyWorker .returned) ++ List.replicate 5 .stop

theorem threadPool_leaves_sample :
    ∃ s, (threadPool 1).exec (threadPool 1).init sampleStopped = some s ∧
      s.stop = true ∧ s.tasks = [] ∧
      ∀ (bs : List (Action 1)) (t : State 1), (threadPool 1).exec s bs = some t →
        t.workers onlyWorker = .returned ∨
          bs.countP (fun a => a.thread = some (.worker onlyWorker)) < 11 := by
  obtain ⟨s, hs, htest⟩ := (threadPool 1).exists_exec_of_any (threadPool 1).init sampleStopped
    (fun s => s.stop = true ∧ s.tasks = [] ∧ s.stopper.notifies = false) (by decide +kernel)
  obtain ⟨hstop, htasks, hnotified⟩ := of_decide_eq_true htest
  refine ⟨s, hs, hstop, htasks, fun bs t hexec => ?_⟩
  rcases threadPool_leaves 1 _ s hs hstop with ⟨hnotifies, -⟩ | hleaves
  · rw [hnotified] at hnotifies
    cases hnotifies
  · have hleft := (hleaves onlyWorker).2 bs t hexec
    rw [htasks] at hleft
    exact hleft

end ThreadPool
