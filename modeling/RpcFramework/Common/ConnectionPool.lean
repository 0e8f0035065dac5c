import Mathlib.Algebra.Order.Ring.Int
import Mathlib.Data.List.Nodup
import Mathlib.Logic.Function.Basic
import Mathlib.Tactic.Common
import RpcFramework.Lib.Transition

/-!
# The connection pool

One host's pool of a `ConnectionPool` that is running, and the threads that use it.  Every
critical section of the pool's mutex is one step: `acquire` has one from the lock, or from
a wait, to its return, its wait or the moment it unlocks to connect, and another one when
it is back from connecting; `release` and the cleanup cycle have one each.  `warmup` locks
nothing itself: it is a number of acquisitions and the releases of what they returned.

An object of the pool is known by the number under which it was made; the vector, the
queue and the threads refer to it by that number.  What a validity check says is up to the
environment.

## Main definitions

* `HostPool`, `HostPool.takeIdle`, `HostPool.insert`, `HostPool.release`,
  `HostPool.cleanup` — the pool and what the sections do to it.
* `connectionPool` — the transition system.
* `HostPool.Consistent` — the vector, the queue and the counter agree.
* `RespectsMinimum`, `MinimumHolds` — a cleanup leaves enough connections, and when it does.

## Main results

* `connectionPool_viewsAgree` — **the views of the pool agree and connections are
  exclusive**, in every state.
* `connectionPool_withinLimit_iff` — **the limit is kept** exactly where a connection is
  inserted while there still is room.
* `cleanup_respectsMinimum_iff` — **the minimum is respected** by a cleanup where as many are
  in use, or the pool has no more and none is idle for too long.
-/

namespace ConnectionPool

structure Config where
  maxConnectionsPerHost : ℕ := 10
  minConnectionsPerHost : ℕ := 2
  /-- Times are clock readings in nanoseconds. -/
  idleTimeout : ℤ := 300 * 10 ^ 9
  acquireTimeout : ℤ := 5 * 10 ^ 9

structure PooledConnection where
  lastUsed : ℤ
  inUse : Bool := false

structure HostPool where
  /-- The objects that were ever made. -/
  objects : ℕ → PooledConnection := fun _ => ⟨0, false⟩
  allConnections : List ℕ := []
  idleConnections : List ℕ := []
  /-- Below zero it would have wrapped around. -/
  activeCount : ℤ := 0

namespace HostPool

def inUse (pool : HostPool) (c : ℕ) : Bool := (pool.objects c).inUse

def removeConnection (pool : HostPool) (c : ℕ) : HostPool :=
  { pool with allConnections := pool.allConnections.erase c }

/-- The loop of `acquire` over the idle queue: the connections that are not valid are
removed, up to the first that is. -/
def takeIdle (now : ℤ) (valid : ℕ → Bool) (pool : HostPool) : List ℕ → HostPool × Option ℕ
  | [] => (pool, none)
  | c :: rest =>
      let pool := { pool with idleConnections := rest }
      if valid c then
        ({ pool with
            objects := Function.update pool.objects c ⟨now, true⟩
            activeCount := pool.activeCount + 1 }, some c)
      else takeIdle now valid (pool.removeConnection c) rest

/-- The section of `acquire` behind a connect that succeeded. -/
def insert (pool : HostPool) (c : ℕ) (now : ℤ) : HostPool :=
  { pool with
    objects := Function.update pool.objects c ⟨now, true⟩
    allConnections := pool.allConnections ++ [c]
    activeCount := pool.activeCount + 1 }

/-- The section of `release`. -/
def release (pool : HostPool) (c : ℕ) (now : ℤ) (valid : Bool) : HostPool :=
  if c ∈ pool.allConnections then
    if pool.inUse c then
      let pool :=
        { pool with
          objects := Function.update pool.objects c ⟨now, false⟩
          activeCount := pool.activeCount - 1 }
      if valid then { pool with idleConnections := pool.idleConnections ++ [c] }
      else pool.removeConnection c
    else pool
  else pool

/-- The cleanup keeps a connection that is in use, and one that is neither idle for too
long nor more than the minimum; `now` is the time at which each is looked at, and the size
does not change until all have been. -/
def keeps (config : Config) (pool : HostPool) (now : ℕ → ℤ) (c : ℕ) : Bool :=
  pool.inUse c ||
    !(decide (config.idleTimeout < now c - (pool.objects c).lastUsed) ||
      decide (config.minConnectionsPerHost < pool.allConnections.length))

/-- The section of the cleanup cycle: the connections that are kept, and the queue again
from those. -/
def cleanup (config : Config) (pool : HostPool) (now : ℕ → ℤ) : HostPool :=
  let kept := pool.allConnections.filter (pool.keeps config now)
  { pool with
    allConnections := kept
    idleConnections := kept.filter fun c => !pool.inUse c }

end HostPool

/-- Where a thread is between two sections of `acquire`, with the time at which it gives up. -/
inductive Thread where
  | outside
  | connecting (timeoutTime : ℤ)
  | waiting (timeoutTime : ℤ)

structure State where
  pool : HostPool := {}
  threads : ℕ → Thread := fun _ => .outside
  /-- What was acquired and has not been released. -/
  held : List ℕ := []
  /-- The number of the next object. -/
  next : ℕ := 0

inductive Action where
  /-- A thread calls `acquire` at the time `start`, or is back from its wait; `now` is the
  time at which it looks at the clock again. -/
  | acquire (thread : ℕ) (start now : ℤ) (valid : ℕ → Bool)
  | connected (thread : ℕ) (now : ℤ)
  | connectFailed (thread : ℕ) (now : ℤ)
  | release (c : ℕ) (now : ℤ) (valid : Bool)
  | cleanup (now : ℕ → ℤ)

/-- Without a connection a thread waits, or gives up. -/
def waitOrGiveUp (timeoutTime now : ℤ) : Thread :=
  if timeoutTime ≤ now then .outside else .waiting timeoutTime

/-- The section of `acquire` that begins at the top of its loop. -/
def acquire (config : Config) (s : State) (thread : ℕ) (timeoutTime now : ℤ)
    (valid : ℕ → Bool) : State :=
  match s.pool.takeIdle now valid s.pool.idleConnections with
  | (pool, some c) =>
      { s with
        pool := pool
        threads := Function.update s.threads thread .outside
        held := c :: s.held }
  | (pool, none) =>
      let state :=
        -- the mutex is unlocked for the connect
        if pool.allConnections.length < config.maxConnectionsPerHost then .connecting timeoutTime
        else waitOrGiveUp timeoutTime now
      { s with pool := pool, threads := Function.update s.threads thread state }

def step (config : Config) (s : State) : Action → Option State
  | .acquire thread start now valid =>
      match s.threads thread with
      | .outside => some (acquire config s thread (start + config.acquireTimeout) now valid)
      | .waiting timeoutTime => some (acquire config s thread timeoutTime now valid)
      | .connecting _ => none
  | .connected thread now =>
      match s.threads thread with
      | .connecting _ =>
          some
            -- the limit is not looked at again
            { pool := s.pool.insert s.next now
              threads := Function.update s.threads thread .outside
              held := s.next :: s.held
              next := s.next + 1 }
      | _ => none
  | .connectFailed thread now =>
      match s.threads thread with
      | .connecting timeoutTime =>
          some
            { s with threads := Function.update s.threads thread (waitOrGiveUp timeoutTime now) }
      | _ => none
  -- a holder releases what it has acquired, once
  | .release c now valid =>
      if c ∈ s.held then
        some { s with pool := s.pool.release c now valid, held := s.held.erase c }
      else none
  | .cleanup now => some { s with pool := s.pool.cleanup config now }

/-- What a section does, by the action. -/
inductive Step (config : Config) (s : State) : Action → State → Prop where
  | acquire (thread : ℕ) (start now timeoutTime : ℤ) (valid : ℕ → Bool)
      (hthread : s.threads thread = .outside ∧ timeoutTime = start + config.acquireTimeout ∨
        s.threads thread = .waiting timeoutTime) :
      Step config s (.acquire thread start now valid)
        (ConnectionPool.acquire config s thread timeoutTime now valid)
  | connected (thread : ℕ) (now timeoutTime : ℤ)
      (hthread : s.threads thread = .connecting timeoutTime) :
      Step config s (.connected thread now)
        { pool := s.pool.insert s.next now
          threads := Function.update s.threads thread .outside
          held := s.next :: s.held
          next := s.next + 1 }
  | connectFailed (thread : ℕ) (now timeoutTime : ℤ)
      (hthread : s.threads thread = .connecting timeoutTime) :
      Step config s (.connectFailed thread now)
        { s with threads := Function.update s.threads thread (waitOrGiveUp timeoutTime now) }
  | release (c : ℕ) (now : ℤ) (valid : Bool) (hheld : c ∈ s.held) :
      Step config s (.release c now valid)
        { s with pool := s.pool.release c now valid, held := s.held.erase c }
  | cleanup (now : ℕ → ℤ) :
      Step config s (.cleanup now) { s with pool := s.pool.cleanup config now }

theorem step_cases {config : Config} {s t : State} {a : Action} (h : step config s a = some t) :
    Step config s a t := by
  cases a with
  | acquire thread start now valid =>
    simp only [step] at h
    split at h
    · next hthread => exact Option.some.inj h ▸ .acquire _ _ _ _ _ (Or.inl ⟨hthread, rfl⟩)
    · next timeoutTime hthread => exact Option.some.inj h ▸ .acquire _ _ _ _ _ (Or.inr hthread)
    · cases h
  | connected thread now =>
    simp only [step] at h
    split at h
    · next timeoutTime hthread => exact Option.some.inj h ▸ .connected _ _ _ hthread
    · cases h
  | connectFailed thread now =>
    simp only [step] at h
    split at h
    · next timeoutTime hthread => exact Option.some.inj h ▸ .connectFailed _ _ _ hthread
    · cases h
  | release c now valid =>
    simp only [step] at h
    split at h
    · next hheld => exact Option.some.inj h ▸ .release _ _ _ hheld
    · cases h
  | cleanup now => exact Option.some.inj h ▸ .cleanup _

end ConnectionPool

open ConnectionPool

/-- A host pool, from its construction on. -/
def connectionPool (config : Config) : System State Action where
  init := {}
  step := ConnectionPool.step config

namespace ConnectionPool

/-! ### The pool's views -/

/-- The vector, the queue and the counter agree. -/
structure HostPool.Consistent (pool : HostPool) : Prop where
  nodup : pool.allConnections.Nodup
  active : pool.activeCount = pool.allConnections.countP pool.inUse
  idle_nodup : pool.idleConnections.Nodup
  idle_iff : ∀ c, c ∈ pool.idleConnections ↔ c ∈ pool.allConnections ∧ pool.inUse c = false

section Views

variable {pool : HostPool} {c : ℕ}

theorem inUse_update_self (f : ℕ → PooledConnection) (p : PooledConnection) :
    (Function.update f c p c).inUse = p.inUse := by
  rw [Function.update_self]

/-- An object that is not in the list does not count. -/
theorem countP_inUse_update_of_notMem (pool : HostPool) {l : List ℕ} (h : c ∉ l)
    (p : PooledConnection) :
    l.countP (fun x => (Function.update pool.objects c p x).inUse) = l.countP pool.inUse := by
  refine List.countP_congr fun x hx => ?_
  have hne : x ≠ c := fun heq => h (heq ▸ hx)
  rw [Function.update_of_ne hne]
  rfl

/-- Flagging one object of the list. -/
theorem countP_inUse_update (pool : HostPool) {l : List ℕ} (hl : l.Nodup) (h : c ∈ l)
    (p : PooledConnection) :
    (l.countP (fun x => (Function.update pool.objects c p x).inUse) : ℤ) +
        (if pool.inUse c then 1 else 0) =
      l.countP pool.inUse + if p.inUse then 1 else 0 := by
  induction l with
  | nil => simp at h
  | cons x l ih =>
    obtain ⟨hx, hl⟩ := List.nodup_cons.mp hl
    rw [List.countP_cons, List.countP_cons]
    rcases List.mem_cons.mp h with rfl | hmem
    · rw [countP_inUse_update_of_notMem pool hx, inUse_update_self]
      push_cast
      split_ifs <;> omega
    · have hne : x ≠ c := fun heq => hx (heq ▸ hmem)
      have hrest := ih hl hmem
      rw [Function.update_of_ne hne]
      push_cast
      have hsame : (pool.objects x).inUse = pool.inUse x := rfl
      rw [hsame]
      omega

/-- What a removed object leaves behind, if it was not in use. -/
theorem countP_erase_of_idle {l : List ℕ} {p : ℕ → Bool} (h : p c = false) :
    (l.erase c).countP p = l.countP p := by
  induction l with
  | nil => rfl
  | cons x l ih =>
    rw [List.erase_cons]
    by_cases hx : x = c
    · subst hx
      simp [h]
    · simp only [beq_iff_eq, hx, if_false, List.countP_cons, ih]

/-- Removing a connection at the front of the queue. -/
theorem HostPool.Consistent.removeIdle {rest : List ℕ} (h : pool.Consistent)
    (hidle : pool.idleConnections = c :: rest) :
    ({ pool with idleConnections := rest }.removeConnection c).Consistent := by
  have hc := (h.idle_iff c).mp (hidle ▸ List.mem_cons_self)
  have hnodup : c ∉ rest ∧ rest.Nodup := List.nodup_cons.mp (hidle ▸ h.idle_nodup)
  refine ⟨h.nodup.erase c, ?_, hnodup.2, fun x => ?_⟩
  · show pool.activeCount = (pool.allConnections.erase c).countP pool.inUse
    rw [countP_erase_of_idle hc.2]
    exact h.active
  · show x ∈ rest ↔ x ∈ pool.allConnections.erase c ∧ pool.inUse x = false
    rw [h.nodup.mem_erase_iff, and_assoc, ← h.idle_iff x, hidle, List.mem_cons]
    constructor
    · intro hx
      exact ⟨fun heq => hnodup.1 (heq ▸ hx), Or.inr hx⟩
    · rintro ⟨hne, rfl | hx⟩
      · exact absurd rfl hne
      · exact hx

/-- Taking a connection off the front of the queue. -/
theorem HostPool.Consistent.takeFirst {rest : List ℕ} (h : pool.Consistent)
    (hidle : pool.idleConnections = c :: rest) (now : ℤ) :
    HostPool.Consistent
      { pool with
        idleConnections := rest
        objects := Function.update pool.objects c ⟨now, true⟩
        activeCount := pool.activeCount + 1 } := by
  obtain ⟨hmem, hfree⟩ := (h.idle_iff c).mp (hidle ▸ List.mem_cons_self)
  have hnodup : c ∉ rest ∧ rest.Nodup := List.nodup_cons.mp (hidle ▸ h.idle_nodup)
  have hcount := countP_inUse_update pool h.nodup hmem ⟨now, true⟩
  refine ⟨h.nodup, ?_, hnodup.2, fun x => ?_⟩
  · have hactive := h.active
    simp only [hfree, Bool.false_eq_true, if_false, if_true] at hcount
    show pool.activeCount + 1 = _
    rw [hactive, ← hcount, add_zero]
    rfl
  · show x ∈ rest ↔
      x ∈ pool.allConnections ∧ (Function.update pool.objects c ⟨now, true⟩ x).inUse = false
    by_cases hx : x = c
    · subst hx
      simp [hnodup.1]
    · rw [Function.update_of_ne hx]
      have hiff := h.idle_iff x
      rw [hidle, List.mem_cons, or_iff_right hx] at hiff
      exact hiff

/-- Inserting a new connection. -/
theorem HostPool.Consistent.insert (h : pool.Consistent) (hnew : c ∉ pool.allConnections)
    (now : ℤ) : (pool.insert c now).Consistent := by
  have hcount := countP_inUse_update_of_notMem pool hnew ⟨now, true⟩
  refine ⟨?_, ?_, h.idle_nodup, fun x => ?_⟩
  · show (pool.allConnections ++ [c]).Nodup
    rw [List.nodup_append]
    refine ⟨h.nodup, List.nodup_singleton c, fun a ha b hb hab => hnew ?_⟩
    rw [← List.mem_singleton.mp hb, ← hab]
    exact ha
  · show pool.activeCount + 1 = ((pool.allConnections ++ [c]).countP
      fun x => (Function.update pool.objects c ⟨now, true⟩ x).inUse : ℕ)
    rw [List.countP_append, hcount, h.active]
    simp
  · show x ∈ pool.idleConnections ↔ x ∈ pool.allConnections ++ [c] ∧
      (Function.update pool.objects c ⟨now, true⟩ x).inUse = false
    rw [h.idle_iff x]
    by_cases hx : x = c
    · subst hx
      simp [hnew]
    · rw [Function.update_of_ne hx]
      simp only [List.mem_append, List.mem_singleton, hx, or_false]
      rfl

/-- Releasing a connection that is in use. -/
theorem HostPool.Consistent.release (h : pool.Consistent) (hmem : c ∈ pool.allConnections)
    (hused : pool.inUse c = true) (now : ℤ) (valid : Bool) :
    (pool.release c now valid).Consistent := by
  have hcount := countP_inUse_update pool h.nodup hmem ⟨now, false⟩
  simp only [hused, if_true, Bool.false_eq_true, if_false, add_zero] at hcount
  have hnot : c ∉ pool.idleConnections := by
    intro hin
    have hfree := ((h.idle_iff c).mp hin).2
    rw [hused] at hfree
    simp at hfree
  have hactive := h.active
  have hfree : (Function.update pool.objects c ⟨now, false⟩ c).inUse = false :=
    inUse_update_self _ _
  have hothers : ∀ x, x ≠ c → ((Function.update pool.objects c ⟨now, false⟩ x).inUse = false ↔
      pool.inUse x = false) := by
    intro x hx
    rw [Function.update_of_ne hx]
    rfl
  rw [HostPool.release, if_pos hmem, if_pos hused]
  cases valid with
  | true =>
    -- a valid connection goes to the back of the queue
    refine ⟨h.nodup, ?_, ?_, fun x => ?_⟩
    · show pool.activeCount - 1 = _
      rw [hactive, ← hcount, add_sub_cancel_right]
      rfl
    · show (pool.idleConnections ++ [c]).Nodup
      rw [List.nodup_append]
      refine ⟨h.idle_nodup, List.nodup_singleton c, fun a ha b hb hab => hnot ?_⟩
      rw [← List.mem_singleton.mp hb, ← hab]
      exact ha
    · show x ∈ pool.idleConnections ++ [c] ↔ x ∈ pool.allConnections ∧
        (Function.update pool.objects c ⟨now, false⟩ x).inUse = false
      rw [List.mem_append, List.mem_singleton]
      by_cases hx : x = c
      · subst hx
        simp [hmem]
      · rw [or_iff_left hx, hothers x hx]
        exact h.idle_iff x
  | false =>
    -- one that is not leaves the vector, and was not in the queue
    refine ⟨h.nodup.erase c, ?_, h.idle_nodup, fun x => ?_⟩
    · show pool.activeCount - 1 = ((pool.allConnections.erase c).countP
        fun x => (Function.update pool.objects c ⟨now, false⟩ x).inUse : ℕ)
      rw [countP_erase_of_idle hfree, hactive, ← hcount, add_sub_cancel_right]
    · show x ∈ pool.idleConnections ↔ x ∈ pool.allConnections.erase c ∧
        (Function.update pool.objects c ⟨now, false⟩ x).inUse = false
      rw [h.nodup.mem_erase_iff]
      by_cases hx : x = c
      · subst hx
        simp [hnot]
      · rw [hothers x hx, h.idle_iff x]
        simp [hx]

/-- The cleanup. -/
theorem HostPool.Consistent.cleanup (h : pool.Consistent) (config : Config) (now : ℕ → ℤ) :
    (pool.cleanup config now).Consistent := by
  refine ⟨h.nodup.filter _, ?_, (h.nodup.filter _).filter _, fun x => ?_⟩
  · show pool.activeCount = ((pool.allConnections.filter _).countP pool.inUse : ℕ)
    rw [List.countP_filter, h.active]
    congr 1
    refine List.countP_congr fun x _ => ?_
    -- what is in use is kept
    simp only [HostPool.keeps, Bool.and_eq_true, Bool.or_eq_true]
    exact ⟨fun hx => ⟨hx, Or.inl hx⟩, And.left⟩
  · show x ∈ (pool.allConnections.filter _).filter (fun c => !pool.inUse c) ↔ _
    rw [List.mem_filter, Bool.not_eq_true']
    rfl

end Views

/-! ### The invariant -/

/-- Whoever holds a connection holds one that is in use, and nobody else does. -/
structure Invariant (s : State) : Prop where
  pool : s.pool.Consistent
  fresh : ∀ c ∈ s.pool.allConnections, c < s.next
  held_nodup : s.held.Nodup
  held_used : ∀ c ∈ s.held, c ∈ s.pool.allConnections ∧ s.pool.inUse c = true

/-- What the loop over the idle queue leaves. -/
structure Taken (pool pool' : HostPool) (taken : Option ℕ) : Prop where
  consistent : pool'.Consistent
  subset : ∀ c ∈ pool'.allConnections, c ∈ pool.allConnections
  used : ∀ c ∈ pool.allConnections, pool.inUse c = true →
    c ∈ pool'.allConnections ∧ pool'.inUse c = true
  taken : ∀ c, taken = some c →
    pool.inUse c = false ∧ c ∈ pool'.allConnections ∧ pool'.inUse c = true

theorem takeIdle_spec (now : ℤ) (valid : ℕ → Bool) (queue : List ℕ) {pool : HostPool}
    (h : pool.Consistent) (hqueue : pool.idleConnections = queue) :
    Taken pool (pool.takeIdle now valid queue).1 (pool.takeIdle now valid queue).2 := by
  induction queue generalizing pool with
  | nil =>
    refine ⟨h, fun _ hc => hc, fun _ hc hused => ⟨hc, hused⟩, fun _ hc => ?_⟩
    simp [HostPool.takeIdle] at hc
  | cons c rest ih =>
    obtain ⟨hmem, hfree⟩ := (h.idle_iff c).mp (hqueue ▸ List.mem_cons_self)
    rw [HostPool.takeIdle]
    by_cases hvalid : valid c = true
    · rw [if_pos hvalid]
      refine ⟨h.takeFirst hqueue now, fun _ hx => hx, fun x hx hused => ⟨hx, ?_⟩, ?_⟩
      · have hne : x ≠ c := by
          rintro rfl
          rw [hfree] at hused
          simp at hused
        show (Function.update pool.objects c ⟨now, true⟩ x).inUse = true
        rw [Function.update_of_ne hne]
        exact hused
      · intro x hx
        obtain rfl := Option.some.inj hx
        exact ⟨hfree, hmem, inUse_update_self _ _⟩
    · rw [if_neg hvalid]
      have hrest := ih (h.removeIdle hqueue) rfl
      have hsub : ∀ x ∈ pool.allConnections.erase c, x ∈ pool.allConnections :=
        fun x hx => List.mem_of_mem_erase hx
      refine ⟨hrest.consistent, fun x hx => hsub x (hrest.subset x hx), fun x hx hused => ?_,
        hrest.taken⟩
      have hne : x ≠ c := by
        rintro rfl
        rw [hfree] at hused
        simp at hused
      exact hrest.used x (h.nodup.mem_erase_iff.mpr ⟨hne, hx⟩) hused

variable {config : Config} {s t : State}

theorem invariant_init : Invariant {} where
  pool := ⟨List.nodup_nil, rfl, List.nodup_nil, fun _ => by simp⟩
  fresh _ hc := absurd hc List.not_mem_nil
  held_nodup := List.nodup_nil
  held_used _ hc := absurd hc List.not_mem_nil

theorem Invariant.acquire (h : Invariant s) (thread : ℕ) (timeoutTime now : ℤ)
    (valid : ℕ → Bool) : Invariant (acquire config s thread timeoutTime now valid) := by
  have htaken := takeIdle_spec now valid _ h.pool rfl
  unfold ConnectionPool.acquire
  split
  · next pool c heq =>
    rw [heq] at htaken
    obtain ⟨hfree, hmem, hused⟩ := htaken.taken c rfl
    refine ⟨htaken.consistent, fun x hx => h.fresh x (htaken.subset x hx), ?_, ?_⟩
    · -- what is held is in use, and what was taken was not
      refine List.nodup_cons.mpr ⟨fun hin => ?_, h.held_nodup⟩
      have hheld := (h.held_used c hin).2
      rw [hfree] at hheld
      simp at hheld
    · intro x hx
      rcases List.mem_cons.mp hx with rfl | hx
      · exact ⟨hmem, hused⟩
      · obtain ⟨hin, hused'⟩ := h.held_used x hx
        exact htaken.used x hin hused'
  · next pool heq =>
    rw [heq] at htaken
    refine ⟨htaken.consistent, fun x hx => h.fresh x (htaken.subset x hx), h.held_nodup, ?_⟩
    intro x hx
    obtain ⟨hin, hused⟩ := h.held_used x hx
    exact htaken.used x hin hused

theorem Invariant.connected (h : Invariant s) (thread : ℕ) (now : ℤ) :
    Invariant
      { pool := s.pool.insert s.next now
        threads := Function.update s.threads thread .outside
        held := s.next :: s.held
        next := s.next + 1 } := by
  have hnew : s.next ∉ s.pool.allConnections := fun hin => absurd (h.fresh _ hin) (lt_irrefl _)
  refine ⟨h.pool.insert hnew now, ?_, ?_, ?_⟩
  · intro x hx
    rcases List.mem_append.mp hx with hx | hx
    · exact Nat.lt_succ_of_lt (h.fresh x hx)
    · rw [List.mem_singleton.mp hx]
      exact Nat.lt_succ_self _
  · exact List.nodup_cons.mpr ⟨fun hin => hnew (h.held_used _ hin).1, h.held_nodup⟩
  · intro x hx
    rcases List.mem_cons.mp hx with rfl | hx
    · exact ⟨List.mem_append_right _ (List.mem_singleton_self _), inUse_update_self _ _⟩
    · obtain ⟨hin, hused⟩ := h.held_used x hx
      have hne : x ≠ s.next := fun heq => hnew (heq ▸ hin)
      refine ⟨List.mem_append_left _ hin, ?_⟩
      show (Function.update s.pool.objects s.next ⟨now, true⟩ x).inUse = true
      rw [Function.update_of_ne hne]
      exact hused

theorem Invariant.release (h : Invariant s) {c : ℕ} (hc : c ∈ s.held) (now : ℤ) (valid : Bool) :
    Invariant { s with pool := s.pool.release c now valid, held := s.held.erase c } := by
  obtain ⟨hmem, hused⟩ := h.held_used c hc
  have hall : ∀ x, x ≠ c → (x ∈ (s.pool.release c now valid).allConnections ↔
      x ∈ s.pool.allConnections) ∧ (s.pool.release c now valid).inUse x = s.pool.inUse x := by
    intro x hne
    have hsame : (Function.update s.pool.objects c ⟨now, false⟩ x).inUse = s.pool.inUse x := by
      rw [Function.update_of_ne hne]
      rfl
    rw [HostPool.release, if_pos hmem, if_pos hused]
    cases valid with
    | true => exact ⟨Iff.rfl, hsame⟩
    | false => exact ⟨List.mem_erase_of_ne hne, hsame⟩
  have hsub : ∀ x ∈ (s.pool.release c now valid).allConnections, x ∈ s.pool.allConnections := by
    intro x hx
    by_cases hne : x = c
    · rw [hne]
      exact hmem
    · exact (hall x hne).1.mp hx
  refine ⟨h.pool.release hmem hused now valid, fun x hx => h.fresh x (hsub x hx),
    h.held_nodup.erase c, fun x hx => ?_⟩
  obtain ⟨hne, hx⟩ := h.held_nodup.mem_erase_iff.mp hx
  obtain ⟨hin, hused'⟩ := h.held_used x hx
  exact ⟨(hall x hne).1.mpr hin, (hall x hne).2.trans hused'⟩

theorem Invariant.cleanup (h : Invariant s) (now : ℕ → ℤ) :
    Invariant { s with pool := s.pool.cleanup config now } := by
  refine ⟨h.pool.cleanup config now, fun x hx => h.fresh x (List.mem_of_mem_filter hx),
    h.held_nodup, fun x hx => ?_⟩
  obtain ⟨hin, hused⟩ := h.held_used x hx
  refine ⟨List.mem_filter.mpr ⟨hin, ?_⟩, hused⟩
  rw [HostPool.keeps, hused, Bool.true_or]

/-- **Every section keeps the invariant.** -/
theorem Invariant.step (h : Invariant s) {a : Action}
    (hstep : ConnectionPool.step config s a = some t) : Invariant t := by
  cases step_cases hstep with
  | acquire thread start now timeoutTime valid hthread => exact h.acquire thread _ now valid
  | connected thread now timeoutTime hthread => exact h.connected thread now
  | connectFailed thread now timeoutTime hthread =>
    exact ⟨h.pool, h.fresh, h.held_nodup, h.held_used⟩
  | release c now valid hheld => exact h.release hheld now valid
  | cleanup now => exact h.cleanup now

/-- The loop over the idle queue counts up if it takes a connection. -/
theorem activeCount_takeIdle (now : ℤ) (valid : ℕ → Bool) (pool : HostPool) (queue : List ℕ) :
    (pool.takeIdle now valid queue).1.activeCount =
      pool.activeCount + if (pool.takeIdle now valid queue).2.isSome then 1 else 0 := by
  induction queue generalizing pool with
  | nil => exact (add_zero _).symm
  | cons c rest ih =>
    rw [HostPool.takeIdle]
    split
    · rfl
    · exact ih _

/-- A call that does not get its connection at once holds nothing. -/
theorem activeCount_acquire (hcount : s.pool.activeCount = s.held.length) (thread : ℕ)
    (timeoutTime now : ℤ) (valid : ℕ → Bool) :
    (ConnectionPool.acquire config s thread timeoutTime now valid).pool.activeCount =
      (ConnectionPool.acquire config s thread timeoutTime now valid).held.length := by
  have htaken := activeCount_takeIdle now valid s.pool s.pool.idleConnections
  unfold ConnectionPool.acquire
  split
  · next pool c heq =>
    rw [heq] at htaken
    show pool.activeCount = ((c :: s.held).length : ℕ)
    rw [htaken, hcount]
    simp
  · next pool heq =>
    rw [heq] at htaken
    show pool.activeCount = s.held.length
    rw [htaken, hcount]
    simp

theorem HostPool.activeCount_release {pool : HostPool} {c : ℕ} (now : ℤ) (valid : Bool)
    (hmem : c ∈ pool.allConnections) (hused : pool.inUse c = true) :
    (pool.release c now valid).activeCount = pool.activeCount - 1 := by
  rw [HostPool.release, if_pos hmem, if_pos hused]
  cases valid <;> rfl

/-- **The counter counts what is held**, whatever became of it. -/
theorem Invariant.activeCount_step (h : Invariant s) (hcount : s.pool.activeCount = s.held.length)
    {a : Action} (hstep : ConnectionPool.step config s a = some t) :
    t.pool.activeCount = t.held.length := by
  cases step_cases hstep with
  | acquire thread start now timeoutTime valid hthread =>
    exact activeCount_acquire hcount thread _ now valid
  | connected thread now timeoutTime hthread =>
    show s.pool.activeCount + 1 = ((s.next :: s.held).length : ℕ)
    rw [hcount, List.length_cons]
    push_cast
    rfl
  | connectFailed thread now timeoutTime hthread => exact hcount
  | release c now valid hheld =>
    obtain ⟨hmem, hused⟩ := h.held_used c hheld
    have hpos := List.length_pos_of_mem hheld
    show (s.pool.release c now valid).activeCount = ((s.held.erase c).length : ℕ)
    rw [HostPool.activeCount_release now valid hmem hused, hcount,
      List.length_erase_of_mem hheld]
    omega
  | cleanup now => exact hcount

/-- In every state that is reached the counter is the number of connections in use, the
queue holds each of the others once and nothing else, the counter is not below zero, and
nothing is held twice. -/
def ViewsAgree (S : System State Action) : Prop :=
  ∀ (as : List Action) (s : State), S.exec S.init as = some s →
    s.pool.activeCount = s.pool.allConnections.countP s.pool.inUse ∧
      (∀ c, s.pool.idleConnections.count c =
        if c ∈ s.pool.allConnections ∧ s.pool.inUse c = false then 1 else 0) ∧
      0 ≤ s.pool.activeCount ∧ s.held.Nodup

/-- **The views of the pool agree, and connections are exclusive.** -/
theorem connectionPool_viewsAgree (config : Config) : ViewsAgree (connectionPool config) := by
  intro as s hexec
  have h : Invariant s := System.reachable_invariant invariant_init
    (fun _ _ _ hs hstep => hs.step hstep) hexec
  refine ⟨h.pool.active, fun c => ?_, ?_, h.held_nodup⟩
  · rw [List.Nodup.count h.pool.idle_nodup]
    exact if_congr (h.pool.idle_iff c) rfl rfl
  · rw [h.pool.active]
    exact Int.natCast_nonneg _

/-! ### The limit -/

/-- The pool has no more connections than it may have. -/
def WithinLimit (config : Config) (s : State) : Prop :=
  s.pool.allConnections.length ≤ config.maxConnectionsPerHost

/-- When a thread is back from connecting, the pool still has room for the connection. -/
def HasRoom (config : Config) (s : State) : Action → Prop
  | .connected _ _ => s.pool.allConnections.length < config.maxConnectionsPerHost
  | _ => True

instance (config : Config) (s : State) (a : Action) : Decidable (HasRoom config s a) := by
  unfold HasRoom
  split <;> infer_instance

section Limit

variable {config : Config} {s t : State}

theorem length_takeIdle (now : ℤ) (valid : ℕ → Bool) (pool : HostPool) (queue : List ℕ) :
    (pool.takeIdle now valid queue).1.allConnections.length ≤ pool.allConnections.length := by
  induction queue generalizing pool with
  | nil => exact le_refl _
  | cons c rest ih =>
    rw [HostPool.takeIdle]
    by_cases hvalid : valid c = true
    · rw [if_pos hvalid]
    · rw [if_neg hvalid]
      exact (ih _).trans List.length_erase_le

theorem length_release (pool : HostPool) (c : ℕ) (now : ℤ) (valid : Bool) :
    (pool.release c now valid).allConnections.length ≤ pool.allConnections.length := by
  unfold HostPool.release
  split
  · split
    · cases valid with
      | true => exact le_refl _
      | false => exact List.length_erase_le
    · exact le_refl _
  · exact le_refl _

theorem length_acquire (thread : ℕ) (timeoutTime now : ℤ) (valid : ℕ → Bool) :
    (acquire config s thread timeoutTime now valid).pool.allConnections.length ≤
      s.pool.allConnections.length := by
  have hle := length_takeIdle now valid s.pool s.pool.idleConnections
  unfold acquire
  split
  · next heq =>
    rw [heq] at hle
    exact hle
  · next heq =>
    rw [heq] at hle
    exact hle

/-- A step leaves the pool within its limit exactly where it has room. -/
theorem hasRoom_iff {a : Action} (hs : WithinLimit config s)
    (hstep : ConnectionPool.step config s a = some t) :
    HasRoom config s a ↔ WithinLimit config t := by
  cases step_cases hstep with
  | acquire thread start now timeoutTime valid hthread =>
    exact iff_of_true trivial ((length_acquire thread _ now valid).trans hs)
  | connected thread now timeoutTime hthread =>
    -- the only section that adds to the vector
    show s.pool.allConnections.length < config.maxConnectionsPerHost ↔
      (s.pool.allConnections ++ [s.next]).length ≤ config.maxConnectionsPerHost
    rw [List.length_append, List.length_singleton, Nat.succ_le_iff]
  | connectFailed thread now timeoutTime hthread => exact iff_of_true trivial hs
  | release c now valid hheld =>
    exact iff_of_true trivial ((length_release s.pool c now valid).trans hs)
  | cleanup now => exact iff_of_true trivial ((List.length_filter_le _ _).trans hs)

end Limit

/-- In no state is the pool past its limit. -/
def LimitKept (config : Config) (S : System State Action) : Prop :=
  ∀ (as : List Action) (s : State), S.exec S.init as = some s → WithinLimit config s

/-- **The limit is kept throughout a run exactly where a connection is inserted only while
there still is room for it.** -/
theorem connectionPool_withinLimit_iff (config : Config) (as : List Action) (t : State)
    (hrun : (connectionPool config).exec {} as = some t) :
    (∀ s ∈ (connectionPool config).visited {} as, WithinLimit config s) ↔
      ((connectionPool config).restrict (HasRoom config)).exec {} as = some t :=
  System.exec_restrict_iff (fun _ _ _ hs hstep => hasRoom_iff hs hstep) (Nat.zero_le _) hrun

/-- Two threads find the pool empty, and both connect. -/
def sampleRace : List Action :=
  [.acquire 0 0 0 fun _ => true, .acquire 1 0 0 fun _ => true, .connected 0 0, .connected 1 0]

/-- One after the other they stay within a limit of two. -/
theorem connectionPool_withinLimit_sample :
    ∃ t, (connectionPool { maxConnectionsPerHost := 2 }).exec {} sampleRace = some t ∧
      ((∀ s ∈ (connectionPool { maxConnectionsPerHost := 2 }).visited {} sampleRace,
          WithinLimit { maxConnectionsPerHost := 2 } s) ↔
        ((connectionPool { maxConnectionsPerHost := 2 }).restrict
          (HasRoom { maxConnectionsPerHost := 2 })).exec {} sampleRace = some t) := by
  refine ⟨_, rfl, ?_⟩
  exact connectionPool_withinLimit_iff { maxConnectionsPerHost := 2 } sampleRace _ rfl

/-- A pool for one connection ends with two. -/
theorem sampleRace_overLimit :
    ¬ LimitKept { maxConnectionsPerHost := 1 }
      (connectionPool { maxConnectionsPerHost := 1 }) := by
  intro hkept
  obtain ⟨s, hs, hlen⟩ :=
    (connectionPool { maxConnectionsPerHost := 1 }).exists_exec_of_any
      {} sampleRace
      (fun s => decide (s.pool.allConnections.length = 2)) (by decide +kernel)
  have hle : s.pool.allConnections.length ≤ 1 := hkept _ s hs
  rw [of_decide_eq_true hlen] at hle
  exact absurd hle (by decide)

section Minimum

variable {config : Config} {pool : HostPool} {now : ℕ → ℤ}

/-- Between the two no connection in use is lost, and the pool does not fall below the
minimum. -/
def RespectsMinimum (config : Config) (before after : HostPool) : Prop :=
  (∀ c ∈ before.allConnections, before.inUse c = true → c ∈ after.allConnections) ∧
    (config.minConnectionsPerHost ≤ before.allConnections.length →
      config.minConnectionsPerHost ≤ after.allConnections.length)

/-- The pool is below its minimum; or it has just that, and none of the connections that are
not in use has been idle for too long; or as many as the minimum are in use. -/
def MinimumHolds (config : Config) (pool : HostPool) (now : ℕ → ℤ) : Prop :=
  pool.allConnections.length < config.minConnectionsPerHost ∨
    (pool.allConnections.length = config.minConnectionsPerHost ∧
      ∀ c ∈ pool.allConnections, pool.inUse c = true ∨
        now c - (pool.objects c).lastUsed ≤ config.idleTimeout) ∨
    config.minConnectionsPerHost ≤ pool.allConnections.countP pool.inUse

/-- Above the minimum only the connections in use are kept. -/
theorem keeps_of_overMin (hover : config.minConnectionsPerHost < pool.allConnections.length)
    (c : ℕ) : pool.keeps config now c = pool.inUse c := by
  rw [HostPool.keeps, decide_eq_true hover, Bool.or_true, Bool.not_true, Bool.or_false]

/-- Otherwise a connection goes if it has been idle for too long. -/
theorem keeps_iff_of_not_overMin
    (hover : ¬ config.minConnectionsPerHost < pool.allConnections.length) (c : ℕ) :
    pool.keeps config now c = true ↔
      pool.inUse c = true ∨ now c - (pool.objects c).lastUsed ≤ config.idleTimeout := by
  rw [HostPool.keeps, decide_eq_false hover, Bool.or_false, Bool.or_eq_true,
    Bool.not_eq_true', decide_eq_false_iff_not, not_lt]

theorem keeps_of_inUse {c : ℕ} (hused : pool.inUse c = true) : pool.keeps config now c = true := by
  rw [HostPool.keeps, hused, Bool.true_or]

theorem length_cleanup : (pool.cleanup config now).allConnections.length =
    pool.allConnections.countP (pool.keeps config now) :=
  List.countP_eq_length_filter.symm

theorem countP_inUse_le_length_cleanup :
    pool.allConnections.countP pool.inUse ≤ (pool.cleanup config now).allConnections.length := by
  rw [length_cleanup]
  exact List.countP_mono_left fun c _ hused => keeps_of_inUse hused

/-- **A cleanup cycle respects the minimum** exactly if the pool is below it, or has just so
many and none is idle for too long, or has so many in use. -/
theorem cleanup_respectsMinimum_iff (config : Config) (pool : HostPool) (now : ℕ → ℤ) :
    RespectsMinimum config pool (pool.cleanup config now) ↔ MinimumHolds config pool now := by
  have hused : ∀ c ∈ pool.allConnections, pool.inUse c = true →
      c ∈ (pool.cleanup config now).allConnections :=
    fun c hc hinUse => List.mem_filter.mpr ⟨hc, keeps_of_inUse hinUse⟩
  rw [RespectsMinimum, and_iff_right hused, MinimumHolds]
  rcases lt_trichotomy pool.allConnections.length config.minConnectionsPerHost with
    hbelow | hjust | hover
  · exact iff_of_true (fun hle => absurd hle (not_le.mpr hbelow)) (Or.inl hbelow)
  · -- all have to be kept
    have hall : config.minConnectionsPerHost ≤ (pool.cleanup config now).allConnections.length ↔
        ∀ c ∈ pool.allConnections, pool.inUse c = true ∨
          now c - (pool.objects c).lastUsed ≤ config.idleTimeout := by
      rw [length_cleanup, ← hjust, List.countP_le_length.ge_iff_eq, List.countP_eq_length]
      exact forall₂_congr fun c _ => keeps_iff_of_not_overMin hjust.le.not_gt c
    rw [forall_prop_of_true hjust.ge, hall]
    constructor
    · intro hkept
      exact Or.inr (Or.inl ⟨hjust, hkept⟩)
    · rintro (hbelow | ⟨-, hkept⟩ | hcount)
      · exact absurd hbelow hjust.not_lt
      · exact hkept
      · exact hall.mp (hcount.trans countP_inUse_le_length_cleanup)
  · -- the connections in use are all that is kept
    have hlength : (pool.cleanup config now).allConnections.length =
        pool.allConnections.countP pool.inUse := by
      rw [length_cleanup]
      exact List.countP_congr fun c _ => by rw [keeps_of_overMin hover]
    rw [forall_prop_of_true hover.le, hlength]
    constructor
    · intro hcount
      exact Or.inr (Or.inr hcount)
    · rintro (hbelow | ⟨hjust, -⟩ | hcount)
      · exact absurd hbelow hover.not_gt
      · exact absurd hjust hover.ne'
      · exact hcount

/-- Three connections that nobody uses, and a minimum of two. -/
def sampleIdle : HostPool where
  allConnections := [0, 1, 2]
  idleConnections := [0, 1, 2]

/-- The cleanup sees three each time, and keeps none. -/
theorem sampleIdle_emptied : ¬ ∀ (config : Config) (pool : HostPool) (now : ℕ → ℤ),
    RespectsMinimum config pool (pool.cleanup config now) := by
  intro h
  exact absurd ((h {} sampleIdle fun _ => 0).2 (by decide)) (by decide)

end Minimum

end ConnectionPool
